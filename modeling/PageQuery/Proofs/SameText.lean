import PageQuery.Proofs.PathsDecide
import PageQuery.Proofs.Texts
/-!
# Texts of filters are only bound

Two requests that differ in the texts of their criteria alone are run side by side.  Compiling them resolves the same
paths in the same order, so both runs are in one scope all the time, and what they restrict differs by values.  Hence
their statements differ by values, that of the total as well, copied or prepared anew: no text of a criterion gets into
the text of a statement, as long as none decides whether a value is there.
-/
namespace PageQuery

/-! ## Compiling side by side -/

def Filter.erased (f : Filter) : Filter := { f with criterion := f.criterion.erased }

def Predicate.blank (p : Predicate) : Predicate := { p with expr := p.expr.blank }

/-- Wherever the criteria of two filters hold a criterion, the term tested takes both alike. -/
def Scope.TakesAlike (s : Scope) (f g : Filter) : Prop :=
  ∀ t, s.tested f.path f.criterion = .ok t → ∀ p ∈ f.criterion.places g.criterion, p.1.TakenAlike t p.2

instance (s : Scope) (f g : Filter) : Decidable (s.TakesAlike f g) :=
  match h : s.tested f.path f.criterion with
  | .error e => .isTrue fun t ht => by
    rw [h] at ht
    cases ht
  | .ok t => decidable_of_iff (∀ p ∈ f.criterion.places g.criterion, p.1.TakenAlike t p.2)
    ⟨fun hp u hu => by
      rw [h] at hu
      cases hu
      exact hp, fun hp => hp t h⟩

/-- Outcomes that are predicates differing by values, soft failures, or one and the same failure. -/
inductive CompileAlike : Except Failure Predicate → Except Failure Predicate → Prop
  | compiled {p q : Predicate} (h : p.blank = q.blank) : CompileAlike (.ok p) (.ok q)
  | dropped {e e' : Failure} (h : e.isSoft = true) (h' : e'.isSoft = true) : CompileAlike (.error e) (.error e')
  | failed (e : Failure) : CompileAlike (.error e) (.error e)

structure Compiled.Alike (x y : Compiled) : Prop where
  scope : x.scope = y.scope
  outcome : CompileAlike x.outcome y.outcome

section
variable {s : Scope} {path : String} {c d : Criterion}

theorem Scope.TakesAlike.congr {s' : Scope} {f g : Filter} (hbase : s.base = s'.base) (hfields : s.fields = s'.fields)
    (h : s.TakesAlike f g) : s'.TakesAlike f g := by
  intro t ht
  have hfield := Scope.field?_congr hfields f.path
  unfold Scope.TakesAlike Scope.tested at h
  unfold Scope.tested at ht
  rw [hfield] at h
  split at ht
  · next hway =>
    rw [if_pos hway, Scope.filterTarget_detached, hbase] at h
    rw [Scope.filterTarget_detached] at ht
    obtain ⟨u, hu, rfl⟩ := map_ok ht
    have htaken := h (u.relabel (rebase s.label s.detached.label)) (by rw [hu]; rfl)
    rwa [Criterion.takenAlike_relabel] at htaken ⊢
  · next hway =>
    rw [if_neg hway] at h
    refine h t ?_
    rw [← ht]
    exact Scope.resolveMarked_congr hbase hfields membershipPath f.path

theorem scope_compileOnTerm (s : Scope) (path : String) (c : Criterion) (ps : List Parameter) :
    (compileOnTerm s path c ps).scope = (s.filterTarget path).1 := by
  unfold compileOnTerm
  rcases s.filterTarget path with ⟨s', e | t⟩ <;> rfl

theorem compileOnTerm_alike (h : ∀ t, (s.filterTarget path).2 = .ok t → c.shown t = d.shown t) (ps qs : List Parameter) :
    (compileOnTerm s path c ps).Alike (compileOnTerm s path d qs) := by
  unfold compileOnTerm
  rcases hfound : s.filterTarget path with ⟨s', e | t⟩
  · exact ⟨rfl, .failed e⟩
  · rw [hfound] at h
    refine ⟨rfl, ?_⟩
    rcases Criterion.shown_cases (h t rfl) with ⟨e, e', hc, hd⟩ | ⟨a, b, hc, hd, hblank⟩
    · simp only [hc, hd]
      exact .dropped rfl rfl
    · obtain ⟨hexpr, hwanted⟩ := Built.mk.inj hblank
      simp only [hc, hd]
      exact .compiled (by simp only [predicateOf, Predicate.blank, hexpr, hwanted])

theorem countTest_eq_of_blank {p q : Predicate} (h : p.blank = q.blank) : p.countTest = q.countTest := by
  have hmembership : p.membership = q.membership := (Predicate.mk.inj h).2.2.2
  unfold Predicate.countTest
  rw [hmembership]

theorem nonexistence_blank {p q : Predicate} (h : p.blank = q.blank) (outer inner : Scope) :
    (nonexistence outer inner p).blank = (nonexistence outer inner q).blank := by
  obtain ⟨-, hexpr, -, -⟩ := Predicate.mk.inj h
  unfold nonexistence
  rw [countTest_eq_of_blank h]
  simp only [Scope.correlated, Expr.blank, Subquery.blank_select, List.map_cons, List.map_nil, hexpr]

/-- On a path with one value, a negation is built outside the subquery, on the same term under another label. -/
theorem shown_outside {t u : Term} (hfield : s.field? path = none) (herased : c.erased = d.erased)
    (ht : (s.detached.filterTarget path).2 = .ok t) (htaken : ∀ p ∈ c.places d, p.1.TakenAlike t p.2)
    (hone : (s.detached.filterTarget path).1.hasToManyJoins = false) (hu : (s.opened.filterTarget path).2 = .ok u) :
    (Criterion.negation c).shown u = (Criterion.negation d).shown u := by
  obtain ⟨u', l, column, hu', rfl, -⟩ := Scope.filterTarget_of_detached hfield ht hone
  have hsame : (s.opened.filterTarget path).2 = (s.filterTarget path).2 :=
    Scope.resolveMarked_congr (s := s.opened) (t := s) rfl rfl membershipPath path
  rw [hsame, hu'] at hu
  cases hu
  rw [Criterion.takenAlike_relabel] at htaken
  rw [Criterion.shown_negation, Criterion.shown_negation, Criterion.shown_of_places u herased htaken]

theorem compile_apart_alike (hfield : (s.field? path).isNone = true) (herased : c.erased = d.erased)
    (htakes : ∀ t, (s.detached.filterTarget path).2 = .ok t → ∀ p ∈ c.places d, p.1.TakenAlike t p.2)
    (ps qs : List Parameter) : (compile s path (.negation c) ps).Alike (compile s path (.negation d) qs) := by
  cases ht : (s.detached.filterTarget path).2 with
  | error e =>
    have hfound : s.detached.filterTarget path = (_, .error e) := Prod.ext rfl ht
    rw [compile_apart hfield, compile_apart hfield, compileOnTerm_of_error hfound, compileOnTerm_of_error hfound]
    exact ⟨rfl, .failed e⟩
  | ok t =>
    have hpositive : (compileOnTerm s.detached path c ps).Alike (compileOnTerm s.detached path d qs) :=
      compileOnTerm_alike (fun t ht => Criterion.shown_of_places t herased (htakes t ht)) ps qs
    obtain ⟨hscope, houtcome⟩ := hpositive
    rw [compile_apart hfield, compile_apart hfield, ← hscope]
    generalize (compileOnTerm s.detached path c ps).outcome = x at houtcome ⊢
    generalize (compileOnTerm s.detached path d qs).outcome = y at houtcome ⊢
    cases houtcome with
    | failed e => exact ⟨rfl, .failed e⟩
    | dropped h h' => exact ⟨rfl, .dropped h h'⟩
    | compiled h =>
      simp only
      split
      · exact ⟨rfl, .compiled (by simp only [Predicate.blank, nonexistence_blank h])⟩
      · next hone =>
        rw [scope_compileOnTerm, Bool.not_eq_true] at hone
        exact compileOnTerm_alike
          (fun u hu => shown_outside (Option.isNone_iff_eq_none.1 hfield) herased ht (htakes t ht) hone hu) ps qs

/-- **Criteria that differ in their texts are compiled alike**, in one scope to one scope. -/
theorem compile_alike (herased : c.erased = d.erased)
    (htakes : ∀ t, s.tested path c = .ok t → ∀ p ∈ c.places d, p.1.TakenAlike t p.2) (ps qs : List Parameter) :
    (compile s path c ps).Alike (compile s path d qs) := by
  have hnegation : c.isNegation = d.isNegation := by
    rw [← Criterion.isNegation_erased c, herased, Criterion.isNegation_erased]
  unfold Scope.tested at htakes
  cases hway : c.isNegation && (s.field? path).isNone with
  | false =>
    rw [hway] at htakes
    rw [compile_direct hway, compile_direct (hnegation ▸ hway)]
    exact compileOnTerm_alike (fun t ht => Criterion.shown_of_places t herased (htakes t ht)) ps qs
  | true =>
    rw [hway] at htakes
    obtain ⟨hc, hfield⟩ := Bool.and_eq_true_iff.1 hway
    obtain ⟨c, rfl⟩ := Criterion.eq_negation hc
    obtain ⟨d, rfl⟩ := Criterion.eq_negation (hnegation ▸ hc)
    simp only [Criterion.erased, Criterion.negation.injEq] at herased
    simp only [Criterion.places, List.forall_mem_cons, if_true] at htakes
    exact compile_apart_alike hfield herased (fun t ht => (htakes t ht).2) ps qs

end

structure CompiledAll.Alike (x y : CompiledAll) : Prop where
  scope : x.scope = y.scope
  outcome : FinishAlike (fun ps qs => ps.map Predicate.blank = qs.map Predicate.blank) x.outcome y.outcome

theorem FinishAlike.cons_map {x y : Except Failure (List Predicate)} {p q : Predicate} (hpq : p.blank = q.blank)
    (h : FinishAlike (fun ps qs => ps.map Predicate.blank = qs.map Predicate.blank) x y) :
    FinishAlike (fun ps qs => ps.map Predicate.blank = qs.map Predicate.blank) (x.map (p :: ·)) (y.map (q :: ·)) := by
  cases h with
  | error e => exact .error e
  | ok h =>
    refine .ok ?_
    rw [List.map_cons, List.map_cons, hpq, h]

theorem compileAll_alike {s : Scope} (fs : List Filter) : ∀ {gs : List Filter} {s' : Scope} (ps qs : List Parameter),
    s.base = s'.base → s.fields = s'.fields → fs.map Filter.erased = gs.map Filter.erased →
    (∀ p ∈ fs.zip gs, s.TakesAlike p.1 p.2) → (compileAll s' ps fs).Alike (compileAll s' qs gs) := by
  induction fs with
  | nil =>
    intro gs s' ps qs _ _ herased _
    rw [List.map_eq_nil_iff.1 herased.symm]
    exact ⟨rfl, .ok rfl⟩
  | cons f fs ih =>
    intro gs s' ps qs hbase hfields herased htakes
    cases gs with
    | nil => cases herased
    | cons g gs =>
      obtain ⟨hfg, herased⟩ := List.cons.inj herased
      simp only [List.zip_cons_cons, List.forall_mem_cons] at htakes
      obtain ⟨hpath, hcriterion⟩ := Filter.mk.inj hfg
      have hgrows := grows_compile s' f.path f.criterion ps
      obtain ⟨hscope, houtcome⟩ := compile_alike hcriterion (htakes.1.congr hbase hfields) ps qs
      rw [hpath] at hscope houtcome hgrows
      have hrest := ih (compile s' g.path f.criterion ps).parameters (compile s' g.path g.criterion qs).parameters
        (hbase.trans hgrows.base.symm) (hfields.trans hgrows.fields.symm) herased htakes.2
      simp only [compileAll, hpath, ← hscope]
      generalize (compile s' g.path f.criterion ps).outcome = x at houtcome ⊢
      generalize (compile s' g.path g.criterion qs).outcome = y at houtcome ⊢
      cases houtcome with
      | compiled h => exact ⟨hrest.scope, hrest.outcome.cons_map h⟩
      | dropped h h' =>
        simp only [h, h', if_true]
        exact ⟨hrest.scope, hrest.outcome⟩
      | failed e =>
        simp only
        split
        · exact ⟨hrest.scope, hrest.outcome⟩
        · exact ⟨rfl, .error e⟩

/-! ## Restrictions -/

def Restriction.blank (r : Restriction) : Restriction :=
  { r with conditions := r.conditions.map Expr.blank, having := r.having.map Expr.blank }

namespace Restriction
variable {r r' : Restriction}

theorem blank_eq_iff : r.blank = r'.blank ↔ r.conditions.map Expr.blank = r'.conditions.map Expr.blank ∧
    r.groupBy = r'.groupBy ∧ r.having.map Expr.blank = r'.having.map Expr.blank := by
  simp only [blank, Restriction.mk.injEq]

theorem addPredicate_blank (h : r.blank = r'.blank) {p q : Predicate} (hpq : p.blank = q.blank) :
    (r.addPredicate p).blank = (r'.addPredicate q).blank := by
  obtain ⟨-, hexpr, hlevel, -⟩ := Predicate.mk.inj hpq
  obtain ⟨hconditions, hgroupBy, hhaving⟩ := blank_eq_iff.1 h
  unfold addPredicate
  rw [countTest_eq_of_blank hpq, hlevel]
  cases q.level <;> simp [blank, hconditions, hgroupBy, hhaving, hexpr]

theorem foldl_addPredicate_blank (ps : List Predicate) : ∀ {qs : List Predicate} {r r' : Restriction},
    r.blank = r'.blank → ps.map Predicate.blank = qs.map Predicate.blank →
    (ps.foldl addPredicate r).blank = (qs.foldl addPredicate r').blank := by
  induction ps with
  | nil =>
    intro qs r r' h hqs
    rw [List.map_eq_nil_iff.1 hqs.symm]
    exact h
  | cons p ps ih =>
    intro qs r r' h hqs
    cases qs with
    | nil => cases hqs
    | cons q qs =>
      obtain ⟨hpq, hqs⟩ := List.cons.inj hqs
      rw [List.foldl_cons, List.foldl_cons]
      exact ih (addPredicate_blank h hpq) hqs

theorem addOptional_blank (h : r.blank = r'.blank) {ps qs : List Predicate}
    (hqs : ps.map Predicate.blank = qs.map Predicate.blank) :
    (r.addOptional ps).blank = (r'.addOptional qs).blank := by
  have hdisjunction : ∀ ps : List Predicate, (Expr.disjunction (ps.map Predicate.expr)).map Expr.blank =
      Expr.disjunction ((ps.map Predicate.blank).map Predicate.expr) := fun ps => by
    rw [Expr.blank_disjunction, List.map_map, List.map_map]
    rfl
  have hlevels : ∀ ps : List Predicate, ps.any (fun p => p.level == .group) =
      (ps.map Predicate.blank).any (fun p => p.level == .group) := fun ps => by
    rw [List.any_map]
    rfl
  have hsame := hdisjunction ps
  rw [hqs, ← hdisjunction] at hsame
  obtain ⟨hconditions, hgroupBy, hhaving⟩ := blank_eq_iff.1 h
  unfold addOptional
  rw [hlevels ps, hqs, ← hlevels]
  cases hp : Expr.disjunction (ps.map Predicate.expr) with
  | none =>
    rw [hp] at hsame
    rw [Option.map_eq_none_iff.1 hsame.symm]
    exact h
  | some e =>
    rw [hp] at hsame
    obtain ⟨e', he', hee'⟩ := Option.map_eq_some_iff.1 hsame.symm
    rw [he']
    simp only
    split <;> simp [blank, hconditions, hgroupBy, hhaving, hee']

/-- **Predicates that differ by values restrict alike but for values.** -/
theorem route_blank (r : Restriction) {must must' may may' : List Predicate}
    (hmust : must.map Predicate.blank = must'.map Predicate.blank)
    (hmay : may.map Predicate.blank = may'.map Predicate.blank) (identity : Expr) :
    (r.route must may identity).blank = (r.route must' may' identity).blank := by
  have hrouted := addOptional_blank (foldl_addPredicate_blank must (Eq.refl r.blank) hmust) hmay
  obtain ⟨hconditions, hgroupBy, hhaving⟩ := blank_eq_iff.1 hrouted
  have hempty := congrArg List.isEmpty hhaving
  rw [List.isEmpty_map, List.isEmpty_map] at hempty
  unfold route groupByIdentity
  rw [hempty]
  split
  · exact hrouted
  · simp only [blank, hconditions, hhaving, hgroupBy]

theorem isEmpty_having (h : r.blank = r'.blank) : r.having.isEmpty = r'.having.isEmpty := by
  have hempty := congrArg List.isEmpty (blank_eq_iff.1 h).2.2
  rwa [List.isEmpty_map, List.isEmpty_map] at hempty

theorem isEmpty_of_blank (h : r.blank = r'.blank) : r.isEmpty = r'.isEmpty := by
  have hempty := congrArg List.isEmpty (blank_eq_iff.1 h).1
  rw [List.isEmpty_map, List.isEmpty_map] at hempty
  unfold isEmpty
  rw [hempty, isEmpty_having h, (blank_eq_iff.1 h).2.1]

theorem relabel_blank (f : String → String) (h : r.blank = r'.blank) : (r.relabel f).blank = (r'.relabel f).blank := by
  have hcommutes : ∀ es : List Expr, (es.map (Expr.relabel f)).map Expr.blank =
      (es.map Expr.blank).map (Expr.relabel f) := fun es => by
    rw [List.map_map, List.map_map]
    exact List.map_congr_left fun e _ => Expr.blank_relabel f e
  obtain ⟨hconditions, hgroupBy, hhaving⟩ := blank_eq_iff.1 h
  rw [blank_eq_iff]
  simp only [relabel, hcommutes, hconditions, hgroupBy, hhaving, and_self]

end Restriction

/-! ## Preparations -/

def Request.erased (r : Request) : Request :=
  { r with required := r.required.map Filter.erased, optional := r.optional.map Filter.erased }

theorem Request.erased_eq_iff {r r' : Request} : r.erased = r'.erased ↔
    r.offset = r'.offset ∧ r.limit = r'.limit ∧ r.ordering = r'.ordering ∧
      r.required.map Filter.erased = r'.required.map Filter.erased ∧
      r.optional.map Filter.erased = r'.optional.map Filter.erased := by
  simp only [Request.erased, Request.mk.injEq]

structure Prepared.SameText (p q : Prepared) : Prop where
  scope : p.scope = q.scope
  projection : p.projection = q.projection
  restriction : p.restriction.blank = q.restriction.blank

section
variable {catalog : Catalog} {root : Entity} {recipe : Option Recipe} {r r' : Request}

theorem restrict_sameText {s : Scope} (projection : Option Projection) (conditions : List Expr)
    (herased : r.erased = r'.erased) (hrequired : ∀ p ∈ r.required.zip r'.required, s.TakesAlike p.1 p.2)
    (hoptional : ∀ p ∈ r.optional.zip r'.optional, s.TakesAlike p.1 p.2) :
    FinishAlike Prepared.SameText (restrict s r projection conditions).2 (restrict s r' projection conditions).2 := by
  obtain ⟨-, -, -, herasedRequired, herasedOptional⟩ := Request.erased_eq_iff.1 herased
  have hmust := compileAll_alike r.required [] [] (Eq.refl s.base) rfl herasedRequired hrequired
  have hgrows := grows_compileAll s [] r.required
  have hmay := compileAll_alike r.optional (compileAll s [] r.required).parameters
    (compileAll s [] r'.required).parameters hgrows.base.symm hgrows.fields.symm herasedOptional hoptional
  obtain ⟨hscope, hrequiredAlike⟩ := hmust
  obtain ⟨hscope', hoptionalAlike⟩ := hmay
  unfold restrict
  simp only [← hscope, ← hscope']
  generalize (compileAll s [] r.required).outcome = x at hrequiredAlike ⊢
  generalize (compileAll s [] r'.required).outcome = y at hrequiredAlike ⊢
  cases hrequiredAlike with
  | error e => exact .error e
  | ok hmust =>
    simp only
    generalize (compileAll (compileAll s [] r.required).scope (compileAll s [] r.required).parameters
      r.optional).outcome = x at hoptionalAlike ⊢
    generalize (compileAll (compileAll s [] r.required).scope (compileAll s [] r'.required).parameters
      r'.optional).outcome = y at hoptionalAlike ⊢
    cases hoptionalAlike with
    | error e => exact .error e
    | ok hmay => exact .ok ⟨rfl, rfl, Restriction.route_blank _ hmust hmay _⟩

theorem prepare_sameText (herased : r.erased = r'.erased)
    (hrequired : ∀ p ∈ r.required.zip r'.required, (requestScope catalog root recipe).TakesAlike p.1 p.2)
    (hoptional : ∀ p ∈ r.optional.zip r'.optional, (requestScope catalog root recipe).TakesAlike p.1 p.2) :
    FinishAlike Prepared.SameText (prepare catalog root r recipe dataLabel).2
      (prepare catalog root r' recipe dataLabel).2 := by
  unfold requestScope at hrequired hoptional
  unfold prepare
  cases recipe with
  | none => exact restrict_sameText none [] herased hrequired hoptional
  | some x =>
    simp only [Recipe.ran] at hrequired hoptional ⊢
    rcases hrun : RunState.run (Scope.new catalog root dataLabel) x with ⟨st, _ | e⟩
    · rw [hrun] at hrequired hoptional
      exact restrict_sameText (x.projection? st) st.conditions herased hrequired hoptional
    · exact .error e

/-! ## Plans -/

/-- Plans whose statements differ by the values of their conditions, so that their texts with marks for values are the
same. -/
structure Plan.SameText (p q : Plan) : Prop where
  text : ∀ b : Backend, p.statement.boundText b = q.statement.boundText b
  statement : p.statement.blank = q.statement.blank
  columns : p.columns = q.columns
  profile : p.profile = q.profile

theorem Plan.sameText_of_blank {p q : Plan} (hstatement : p.statement.blank = q.statement.blank)
    (hcolumns : p.columns = q.columns) (hprofile : p.profile = q.profile) : p.SameText q where
  text b := by rw [← Statement.boundText_blank b p.statement, hstatement, Statement.boundText_blank]
  statement := hstatement
  columns := hcolumns
  profile := hprofile

theorem dataGrouping_congr {x y : Restriction} (h : x.blank = y.blank) (identity : Expr)
    (projection : Option Projection) (selected : List Selected) (orders : List OrderTerm) :
    dataGrouping identity x projection selected orders = dataGrouping identity y projection selected orders := by
  unfold dataGrouping
  rw [Restriction.isEmpty_having h, (Restriction.blank_eq_iff.1 h).2.1]

theorem dataPlan_sameText (hoffset : r.offset = r'.offset) (hlimit : r.limit = r'.limit)
    (hordering : r.ordering = r'.ordering) {p q : Prepared} (h : p.SameText q) :
    FinishAlike Plan.SameText (dataPlan r p) (dataPlan r' q) := by
  have hterms : ∀ s, orderTerms s r = orderTerms s r' := fun s => by
    unfold orderTerms
    rw [hlimit, hordering]
  obtain ⟨hconditions, -, hhaving⟩ := Restriction.blank_eq_iff.1 h.restriction
  unfold dataPlan
  rw [h.scope, h.projection, hterms]
  rcases orderTerms q.scope r' with ⟨s, e | orders⟩
  · exact .error e
  · refine .ok (Plan.sameText_of_blank ?_ rfl ?_)
    · simp only [Statement.blank, dataGrouping_congr h.restriction, hconditions, hhaving, hoffset, hlimit]
    · simp only [dataGrouping_congr h.restriction, Restriction.isEmpty_having h.restriction, hoffset, hlimit]

theorem countPlanOver_sameText {x y : Restriction} (h : x.blank = y.blank) (caps : Capabilities) (label : String)
    (joins : List Join) (ps qs : List Parameter) :
    (countPlanOver root caps label joins x ps).SameText (countPlanOver root caps label joins y qs) := by
  obtain ⟨hconditions, hgroupBy, hhaving⟩ := Restriction.blank_eq_iff.1 h
  have hcondition : (countCondition root caps.countIdiom label joins x).blank =
      (countCondition root caps.countIdiom label joins y).blank := by
    unfold countCondition identitySubquery
    cases caps.countIdiom <;>
      simp only [Expr.blank, Subquery.blank_select, List.map_append, hconditions, hgroupBy, hhaving]
  unfold countPlanOver countStatement
  refine Plan.sameText_of_blank ?_ rfl ?_
  · simp only [Statement.blank, List.map_cons, List.map_nil, hcondition]
  · rw [Restriction.isEmpty_having h]

theorem countPlan_sameText {p q : Prepared} (hp : (prepare catalog root r recipe dataLabel).2 = .ok p)
    (hq : (prepare catalog root r' recipe dataLabel).2 = .ok q) (h : p.SameText q) {caps : Capabilities}
    {a b c c' : Plan} (hab : a.SameText b) (hc : (countPlan catalog root caps r recipe a p).2 = .ok c)
    (hc' : (countPlan catalog root caps r' recipe b q).2 = .ok c') : c.SameText c' := by
  unfold countPlan at hc hc'
  rw [Restriction.isEmpty_of_blank h.restriction, hab.profile] at hc
  cases hempty : q.restriction.isEmpty with
  | true =>
    simp only [hempty, if_true, Except.ok.injEq] at hc hc'
    rw [← hc, ← hc']
    exact Plan.sameText_of_blank rfl rfl rfl
  | false =>
    cases hcopies : caps.copiesRestriction && !b.profile.joined with
    | true =>
      simp only [hempty, hcopies, Bool.false_eq_true, if_false, if_true, Except.ok.injEq] at hc hc'
      rw [← hc, ← hc']
      exact countPlanOver_sameText h.restriction caps dataLabel [] _ _
    | false =>
      simp only [hempty, hcopies, Bool.false_eq_true, if_false, prepare_again hp, prepare_again hq, Except.map,
        Except.ok.injEq] at hc hc'
      rw [← hc, ← hc']
      simp only [Prepared.relabel, h.scope]
      exact countPlanOver_sameText (Restriction.relabel_blank exchange h.restriction) caps subqueryLabel _ _ _

/-- **Texts of filters are only bound.**  Two requests that differ in the texts of literals and of matches alone, and
whose criteria are taken alike wherever there is one, fail alike, or the statements of the rows have the same text with
marks for values, for every backend, and so have the statements of the total. -/
theorem filter_texts_only_bound (catalog : Catalog) (root : Entity) (caps : Capabilities) {r r' : Request}
    (wantCount : Bool) (recipe : Option Recipe) (requireProjection : Bool) (herased : r.erased = r'.erased)
    (hrequired : ∀ p ∈ r.required.zip r'.required, (requestScope catalog root recipe).TakesAlike p.1 p.2)
    (hoptional : ∀ p ∈ r.optional.zip r'.optional, (requestScope catalog root recipe).TakesAlike p.1 p.2) :
    FinishAlike (fun plan plan' => plan.data.SameText plan'.data ∧ Option.Rel Plan.SameText plan.count plan'.count)
      (PagePlan.build catalog root caps r wantCount recipe requireProjection).2
      (PagePlan.build catalog root caps r' wantCount recipe requireProjection).2 := by
  have hprepare := prepare_sameText herased hrequired hoptional
  unfold PagePlan.build PagePlan.buildFor
  simp only [Recipe.map_always]
  rcases hx : prepare catalog root r recipe dataLabel with ⟨journal, x⟩
  rcases hy : prepare catalog root r' recipe dataLabel with ⟨journal', y⟩
  rw [hx, hy] at hprepare
  cases hprepare with
  | error e => exact .error e
  | @ok p q h =>
    obtain ⟨hoffset, hlimit, hordering, -, -⟩ := Request.erased_eq_iff.1 herased
    have hdata := dataPlan_sameText hoffset hlimit hordering h
    simp only [h.projection]
    split
    · exact .error _
    · generalize hxd : dataPlan r p = xd at hdata
      generalize hyd : dataPlan r' q = yd at hdata
      cases hdata with
      | error e => exact .error e
      | @ok a b hab =>
        cases wantCount with
        | false => exact .ok ⟨hab, .none⟩
        | true =>
          have hp := congrArg Prod.snd hx
          have hq := congrArg Prod.snd hy
          obtain ⟨c, hc⟩ := exists_countPlan hp caps a
          obtain ⟨c', hc'⟩ := exists_countPlan hq caps b
          simp only [if_true, hc, hc']
          exact .ok ⟨hab, .some (countPlan_sameText hp hq h hab hc hc')⟩

end

namespace Sample

/-- The persons with orders of both items and without an order of the amount, preferably of a name like the pattern. -/
def asking (item item' amount pattern : String) : Request :=
  { Request.all with
    required := [⟨"orders.items", .alternatives [.value (.text item), .value (.text item')]⟩,
      ⟨"orders.amount", .negation (.value (.text amount))⟩]
    optional := [⟨"name", .textMatch ⟨pattern, .exact⟩⟩] }

end Sample

open Sample in
/-- Texts that would end a statement, or look like marks, are bound as any others. -/
theorem hostile_texts_only_bound :
    ∃ plan plan',
      (PagePlan.build catalog person Backend.postgres.capabilities (asking "pen" "ink" "5" "A*") true none false).2 =
        .ok plan ∧
      (PagePlan.build catalog person Backend.postgres.capabilities (asking "'; --" "$1" " 12 " "\"?") true none
        false).2 = .ok plan' ∧
      plan.data.statement.values ≠ plan'.data.statement.values ∧ plan.data.SameText plan'.data ∧
      Option.Rel Plan.SameText plan.count plan'.count := by
  have herased : (asking "pen" "ink" "5" "A*").erased = (asking "'; --" "$1" " 12 " "\"?").erased := rfl
  have halike := filter_texts_only_bound catalog person Backend.postgres.capabilities true none false herased
    (by decide +kernel) (by decide +kernel)
  obtain ⟨plan, hplan, hpen⟩ := exists_ok (P := fun plan : PagePlan => .text "pen" ∈ plan.data.statement.values)
    (x := (PagePlan.build catalog person Backend.postgres.capabilities (asking "pen" "ink" "5" "A*") true none false).2)
    (by decide +kernel)
  obtain ⟨plan', hplan', hno⟩ := exists_ok (P := fun plan : PagePlan => .text "pen" ∉ plan.data.statement.values)
    (x := (PagePlan.build catalog person Backend.postgres.capabilities (asking "'; --" "$1" " 12 " "\"?") true none
      false).2) (by decide +kernel)
  rw [hplan, hplan'] at halike
  cases halike with
  | ok h => exact ⟨plan, plan', hplan, hplan', fun hsame => hno (hsame ▸ hpen), h.1, h.2⟩

end PageQuery
