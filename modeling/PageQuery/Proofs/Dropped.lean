import PageQuery.Proofs.Complement
import PageQuery.Proofs.Numbering
/-!
# What a dropped criterion leaves

A criterion that fails softly takes no part in the restriction.  But by the time it fails its path may have been joined
and operands may have been bound, and neither is taken back.  So the plans of a request are, up to the numbers of
subqueries, those of the request without the dropped criteria just if their joins and operands are.
-/
namespace PageQuery

/-! ## Dropped criteria -/

/-- What a criterion comes to when it is compiled alone. -/
def Filter.alone (catalog : Catalog) (root : Entity) (f : Filter) : Compiled :=
  compile (Scope.new catalog root dataLabel) f.path f.criterion []

def Filter.isDropped (catalog : Catalog) (root : Entity) (f : Filter) : Bool :=
  match (f.alone catalog root).outcome with
  | .ok _ => false
  | .error e => e.isSoft

/-- The criterion joins nothing and binds nothing. -/
structure Filter.LeavesNothing (catalog : Catalog) (root : Entity) (f : Filter) : Prop where
  joins : (f.alone catalog root).scope.joins = []
  parameters : (f.alone catalog root).parameters = []

instance (catalog : Catalog) (root : Entity) (f : Filter) : Decidable (f.LeavesNothing catalog root) :=
  decidable_of_iff ((f.alone catalog root).scope.joins = [] ∧ (f.alone catalog root).parameters = [])
    ⟨fun h => ⟨h.1, h.2⟩, fun h => ⟨h.joins, h.parameters⟩⟩

/-- The request without the criteria that fail softly. -/
def Request.kept (catalog : Catalog) (root : Entity) (r : Request) : Request :=
  { r with
    required := r.required.filter fun f => !f.isDropped catalog root
    optional := r.optional.filter fun f => !f.isDropped catalog root }

/-- No criterion that is dropped leaves a join or an operand. -/
def DropsCleanly (catalog : Catalog) (root : Entity) (fs : List Filter) : Prop :=
  ∀ f ∈ fs, f.isDropped catalog root = true → f.LeavesNothing catalog root

instance (catalog : Catalog) (root : Entity) (fs : List Filter) : Decidable (DropsCleanly catalog root fs) :=
  inferInstanceAs (Decidable (∀ f ∈ fs, f.isDropped catalog root = true → f.LeavesNothing catalog root))

theorem map_eq_error {α β : Type} {x y : Except Failure α} {g : α → β} (h : x.map g = y.map g) {e : Failure} :
    x = .error e ↔ y = .error e := by
  cases x <;> cases y <;> simp_all [Except.map]

theorem map_eq_ok {α β : Type} {x y : Except Failure α} {g : α → β} (h : x.map g = y.map g) {a : α}
    (hx : x = .ok a) : ∃ b, y = .ok b ∧ g a = g b := by
  subst hx
  cases y with
  | error e => cases h
  | ok b => exact ⟨b, rfl, Except.ok.inj h⟩

section
variable {s : Scope} (hs : s.fields = [])
include hs

omit hs in
theorem compile_base (s : Scope) (f : Filter) :
    compile s.base f.path f.criterion [] = (f.alone s.catalog s.root).relabel (rebase dataLabel s.label) := by
  have hbase : s.base = (Scope.new s.catalog s.root dataLabel).relabel (rebase dataLabel s.label) := by
    rw [← Scope.new_relabel, rebase_self]
    rfl
  rw [hbase]
  exact compile_relabel (keepsBehind_rebase _ _) _ _ _

theorem compile_eq_error (f : Filter) (ps : List Parameter) {e : Failure} :
    (compile s f.path f.criterion ps).outcome = .error e ↔ (f.alone s.catalog s.root).outcome = .error e := by
  rw [map_eq_error (onTop_compile hs f.path f.criterion ps).outcome, compile_base]
  simp only [Compiled.relabel]
  cases (f.alone s.catalog s.root).outcome <;> simp [Except.map]

theorem isDropped_iff (f : Filter) (ps : List Parameter) :
    f.isDropped s.catalog s.root = true ↔
      ∃ e, (compile s f.path f.criterion ps).outcome = .error e ∧ e.isSoft = true := by
  simp only [compile_eq_error hs]
  unfold Filter.isDropped
  cases (f.alone s.catalog s.root).outcome <;> simp

theorem Filter.LeavesNothing.compile {f : Filter} (h : f.LeavesNothing s.catalog s.root) (ps : List Parameter) :
    (compile s f.path f.criterion ps).scope.joins = s.joins ∧
      (PageQuery.compile s f.path f.criterion ps).parameters = ps := by
  have hontop := onTop_compile hs f.path f.criterion ps
  rw [compile_base] at hontop
  have hjoins := hontop.joins
  have hparameters := hontop.parameters
  simp only [Compiled.relabel, Scope.relabel, h.joins, List.map_nil] at hjoins
  simp only [Compiled.relabel, h.parameters, List.map_nil, bindOperands_nil] at hparameters
  exact ⟨hjoins, hparameters⟩

end

/-! ## Criteria in order -/

/-- Leaving out the criteria that are dropped changes neither what the others come to nor how compiling fails, and if
they leave nothing, then neither the joins nor the operands. -/
theorem compileAll_kept (fs : List Filter) : ∀ {s t : Scope} (ps qs : List Parameter), s.base = t.base →
    s.fields = [] → t.fields = [] →
    (compileAll s ps fs).outcome.map (List.map Predicate.unnumbered) =
      (compileAll t qs (fs.filter fun f => !f.isDropped s.catalog s.root)).outcome.map
        (List.map Predicate.unnumbered) ∧
    (DropsCleanly s.catalog s.root fs → s.joins = t.joins → ps = qs →
      (compileAll s ps fs).scope.joins =
          (compileAll t qs (fs.filter fun f => !f.isDropped s.catalog s.root)).scope.joins ∧
        (compileAll s ps fs).parameters =
          (compileAll t qs (fs.filter fun f => !f.isDropped s.catalog s.root)).parameters) := by
  induction fs with
  | nil => exact fun ps qs _ _ _ => ⟨rfl, fun _ hjoins hps => ⟨hjoins, hps⟩⟩
  | cons f fs ih =>
    intro s t ps qs hbase hs ht
    have hgrows := grows_compile s f.path f.criterion ps
    have hrest := fun {t' : Scope} qs' (hbase' : s.base = t'.base) (ht' : t'.fields = []) =>
      ih (s := (compile s f.path f.criterion ps).scope) (t := t') (compile s f.path f.criterion ps).parameters qs'
        (hgrows.base.trans hbase') (hgrows.fields.trans hs) ht'
    rw [hgrows.catalog, hgrows.root] at hrest
    have hlater : DropsCleanly s.catalog s.root (f :: fs) → DropsCleanly s.catalog s.root fs :=
      fun h f' hf' => h f' (List.mem_cons_of_mem f hf')
    cases hdropped : f.isDropped s.catalog s.root with
    | true =>
      obtain ⟨e, hfails, hsoft⟩ := (isDropped_iff hs f ps).1 hdropped
      obtain ⟨houtcome, hleft⟩ := hrest qs hbase ht
      have hcleanly := fun hclean : DropsCleanly s.catalog s.root (f :: fs) =>
        (hclean f List.mem_cons_self hdropped).compile hs ps
      simp only [compileAll, hfails, hsoft, if_true, hdropped, Bool.not_true, List.filter_cons, Bool.false_eq_true,
        if_false]
      refine ⟨houtcome, fun hclean hjoins hps => hleft (hlater hclean) ?_ ?_⟩
      · exact (hcleanly hclean).1.trans hjoins
      · exact (hcleanly hclean).2.trans hps
    | false =>
      have hontop := onTop_compile hs f.path f.criterion ps
      have hontop' := onTop_compile ht f.path f.criterion qs
      have hgrows' := grows_compile t f.path f.criterion qs
      rw [← hbase] at hontop'
      have hsame := hontop.outcome.trans hontop'.outcome.symm
      have hjoins' : s.joins = t.joins →
          (compile s f.path f.criterion ps).scope.joins = (compile t f.path f.criterion qs).scope.joins := fun h => by
        rw [hontop.joins, hontop'.joins]
        exact Scope.joins_addJoins_congr h _
      have hps' : ps = qs →
          (compile s f.path f.criterion ps).parameters = (compile t f.path f.criterion qs).parameters := fun h => by
        rw [hontop.parameters, hontop'.parameters, h]
      obtain ⟨houtcome, hleft⟩ := hrest (compile t f.path f.criterion qs).parameters (hbase.trans hgrows'.base.symm)
        (hgrows'.fields.trans ht)
      simp only [compileAll, hdropped, Bool.not_false, List.filter_cons, if_true]
      cases hp : (compile s f.path f.criterion ps).outcome with
      | error e =>
        have hhard : e.isSoft = false := by
          rw [← Bool.not_eq_true]
          intro hsoft
          rw [(isDropped_iff hs f ps).2 ⟨e, hp, hsoft⟩] at hdropped
          cases hdropped
        simp only [(map_eq_error hsame).1 hp, hhard, Bool.false_eq_true, if_false]
        exact ⟨trivial, fun _ hjoins hps => ⟨hjoins' hjoins, hps' hps⟩⟩
      | ok p =>
        obtain ⟨q, hq, hpq⟩ := map_eq_ok hsame hp
        simp only [hq]
        refine ⟨?_, fun hclean hjoins hps => hleft (hlater hclean) (hjoins' hjoins) (hps' hps)⟩
        revert houtcome
        cases (compileAll (compile s f.path f.criterion ps).scope
            (compile s f.path f.criterion ps).parameters fs).outcome <;>
          cases (compileAll (compile t f.path f.criterion qs).scope (compile t f.path f.criterion qs).parameters
            (fs.filter fun f => !f.isDropped s.catalog s.root)).outcome <;>
          simp [Except.map, hpq]

/-! ## Preparations -/

/-- Both fail with one failure, or both finish and what they come to is related. -/
inductive FinishAlike {α β : Type} (R : α → β → Prop) : Except Failure α → Except Failure β → Prop
  | error (e : Failure) : FinishAlike R (.error e) (.error e)
  | ok {a : α} {b : β} (h : R a b) : FinishAlike R (.ok a) (.ok b)

/-- Preparations of one root under one label that restrict it alike. -/
structure Prepared.Alike (p q : Prepared) : Prop where
  base : p.scope.base = q.scope.base
  fields : p.scope.fields = []
  fields' : q.scope.fields = []
  projection : p.projection = none
  projection' : q.projection = none
  groupBy : p.restriction.groupBy = q.restriction.groupBy
  restriction : p.restriction.map Expr.unnumbered = q.restriction.map Expr.unnumbered

structure Prepared.LeaveAlike (p q : Prepared) : Prop where
  joins : p.scope.joins = q.scope.joins
  parameters : p.parameters = q.parameters

theorem map_unnumbered_route {must must' may may' : List Predicate}
    (hmust : must.map Predicate.unnumbered = must'.map Predicate.unnumbered)
    (hmay : may.map Predicate.unnumbered = may'.map Predicate.unnumbered) (identity : Expr) :
    ((Restriction.ofConditions []).route must may identity).map Expr.unnumbered =
      ((Restriction.ofConditions []).route must' may' identity).map Expr.unnumbered := by
  have hroute := fun must may => Restriction.route_map structural_unnumbered (r := Restriction.ofConditions []) rfl
    must may identity
  rw [← hroute, ← hroute]
  exact congrArg₂ (fun a b => ((Restriction.ofConditions []).map Expr.unnumbered).route a b identity.unnumbered)
    hmust hmay

section
variable {catalog : Catalog} {root : Entity} {recipe : Option Recipe}

theorem restrict_kept (r : Request) {s : Scope} (hs : s.fields = []) :
    FinishAlike (fun p q => p.Alike q ∧ (DropsCleanly s.catalog s.root (r.required ++ r.optional) →
        p.LeaveAlike q))
      (restrict s r none []).2 (restrict s (r.kept s.catalog s.root) none []).2 := by
  obtain ⟨hmust, hmustLeft⟩ := compileAll_kept r.required [] [] (Eq.refl s.base) hs hs
  have hgrows := grows_compileAll s [] r.required
  have hgrows' := grows_compileAll s [] (r.kept s.catalog s.root).required
  obtain ⟨hmay, hmayLeft⟩ := compileAll_kept r.optional (compileAll s [] r.required).parameters
    (compileAll s [] (r.kept s.catalog s.root).required).parameters (hgrows.base.trans hgrows'.base.symm)
    (hgrows.fields.trans hs) (hgrows'.fields.trans hs)
  rw [hgrows.catalog, hgrows.root] at hmay hmayLeft
  have hsplit : ∀ {fs gs : List Filter}, DropsCleanly s.catalog s.root (fs ++ gs) →
      DropsCleanly s.catalog s.root fs ∧ DropsCleanly s.catalog s.root gs := fun h =>
    ⟨fun f hf => h f (List.mem_append_left _ hf), fun f hf => h f (List.mem_append_right _ hf)⟩
  have hlater := grows_compileAll (compileAll s [] r.required).scope (compileAll s [] r.required).parameters r.optional
  have hlater' := grows_compileAll (compileAll s [] (r.kept s.catalog s.root).required).scope
    (compileAll s [] (r.kept s.catalog s.root).required).parameters (r.kept s.catalog s.root).optional
  unfold restrict
  cases hm : (compileAll s [] r.required).outcome with
  | error e =>
    have hm' : (compileAll s [] (r.kept s.catalog s.root).required).outcome = .error e := (map_eq_error hmust).1 hm
    simp only [hm, hm']
    exact .error e
  | ok must =>
    obtain ⟨must', hm', hmusts⟩ := map_eq_ok hmust hm
    have hm' : (compileAll s [] (r.kept s.catalog s.root).required).outcome = .ok must' := hm'
    simp only [hm, hm']
    cases hy : (compileAll (compileAll s [] r.required).scope (compileAll s [] r.required).parameters
        r.optional).outcome with
    | error e =>
      have hy' := (map_eq_error hmay).1 hy
      simp only [Request.kept] at hy' ⊢
      simp only [hy']
      exact .error e
    | ok may =>
      obtain ⟨may', hy', hmays⟩ := map_eq_ok hmay hy
      have hidentity := (hgrows.trans hlater).identity
      have hidentity' := (hgrows'.trans hlater').identity
      simp only [Request.kept] at hy' hidentity' ⊢
      simp only [hy', hidentity, hidentity']
      refine .ok ⟨⟨?_, ?_, ?_, rfl, rfl, ?_, ?_⟩, fun hclean => ?_⟩
      · exact (hgrows.trans hlater).base.trans (hgrows'.trans hlater').base.symm
      · exact (hgrows.trans hlater).fields.trans hs
      · exact (hgrows'.trans hlater').fields.trans hs
      · have hempty := congrArg (fun x => x.having.isEmpty) (map_unnumbered_route hmusts hmays s.identity.expr)
        simp only [Restriction.map, List.isEmpty_map] at hempty
        rw [Restriction.groupBy_route rfl, Restriction.groupBy_route rfl, hempty]
      · exact map_unnumbered_route hmusts hmays s.identity.expr
      · obtain ⟨hclean, hclean'⟩ := hsplit hclean
        obtain ⟨hjoins, hparameters⟩ := hmustLeft hclean rfl rfl
        obtain ⟨hjoins, hparameters⟩ := hmayLeft hclean' hjoins hparameters
        exact ⟨hjoins, hparameters⟩

theorem prepare_kept (catalog : Catalog) (root : Entity) (hwhole : ∀ x ∈ recipe, x = Recipe.wholeEntity) (r : Request)
    (label : String) :
    FinishAlike
      (fun p q => p.Alike q ∧ (DropsCleanly catalog root (r.required ++ r.optional) → p.LeaveAlike q))
      (prepare catalog root r recipe label).2 (prepare catalog root (r.kept catalog root) recipe label).2 := by
  have hrestrict := restrict_kept r (s := Scope.new catalog root label) rfl
  rw [prepare_wholeEntity hwhole, prepare_wholeEntity hwhole]
  exact hrestrict

end

/-! ## Plans -/

def Item.unnumbered (i : Item) : Item := { i with expr := i.expr.unnumbered }

def SortKey.unnumbered (k : SortKey) : SortKey := { k with expr := k.expr.unnumbered }

/-- The statement with its subqueries under labels without numbers. -/
def Statement.unnumbered (st : Statement) : Statement :=
  { st with
    items := st.items.map Item.unnumbered
    conditions := st.conditions.map Expr.unnumbered
    groupBy := st.groupBy.map Expr.unnumbered
    having := st.having.map Expr.unnumbered
    orderBy := st.orderBy.map SortKey.unnumbered }

def Plan.unnumbered (p : Plan) : Plan := { p with statement := p.statement.unnumbered }

def PagePlan.unnumbered (p : PagePlan) : PagePlan := ⟨p.data.unnumbered, p.count.map Plan.unnumbered⟩

def Subquery.joins : Subquery → List Join
  | .select _ _ _ joins _ _ _ => joins

/-- What criteria leave in a plan beside their predicates: the joins of the statement and of the subqueries in its
conditions, and the operands. -/
structure Residue where
  joins : List Join
  inside : List (List Join)
  parameters : List Parameter
  deriving DecidableEq

def Plan.residue (p : Plan) : Residue :=
  ⟨p.statement.joins, (p.statement.conditions.flatMap Expr.subqueries).map Subquery.joins, p.parameters⟩

def PagePlan.residue (p : PagePlan) : Residue × Option Residue := (p.data.residue, p.count.map Plan.residue)

theorem resolveOrdering_congr : ∀ (os : List Ordering) {s t : Scope}, s.base = t.base → s.fields = [] →
    t.fields = [] → (resolveOrdering s os).2 = (resolveOrdering t os).2 ∧
      (s.joins = t.joins → (resolveOrdering s os).1.joins = (resolveOrdering t os).1.joins)
  | [], _, _, _, _, _ => ⟨rfl, id⟩
  | o :: os, s, t, hbase, hs, ht => by
    have hgrows := fun u : Scope => Scope.grows_readTarget u o.path
    have hread : s.readTarget o.path = (s.addJoins (s.base.readTarget o.path).1.joins, (s.base.readTarget o.path).2) :=
      Scope.resolveMarked_fresh hs _ _
    have hread' : t.readTarget o.path =
        (t.addJoins (s.base.readTarget o.path).1.joins, (s.base.readTarget o.path).2) := by
      rw [hbase]
      exact Scope.resolveMarked_fresh ht _ _
    generalize (s.base.readTarget o.path).1.joins = js at hread hread'
    have hjoins : s.joins = t.joins → (s.addJoins js).joins = (t.addJoins js).joins := fun h =>
      Scope.joins_addJoins_congr h js
    obtain ⟨hrest, hlater⟩ := resolveOrdering_congr os (s := s.addJoins js) (t := t.addJoins js)
      (by rw [Scope.base_addJoins, Scope.base_addJoins, hbase]) (by rw [Scope.fields_addJoins, hs])
      (by rw [Scope.fields_addJoins, ht])
    simp only [resolveOrdering, hread, hread']
    cases (s.base.readTarget o.path).2 with
    | error e => exact ⟨rfl, hjoins⟩
    | ok a => exact ⟨by simp only [hrest], fun h => hlater (hjoins h)⟩

theorem checkOrdering_congr : ∀ (os : List Ordering) {s t : Scope}, s.base = t.base → s.fields = [] →
    t.fields = [] → checkOrdering s os = checkOrdering t os
  | [], _, _, _, _, _ => rfl
  | o :: os, s, t, hbase, hs, ht => by
    have hterminal : s.terminal o.path = t.terminal o.path := by
      rw [← Scope.terminal_base s, hbase, Scope.terminal_base]
    simp only [checkOrdering, Scope.field?_of_fields_eq_nil hs, Scope.field?_of_fields_eq_nil ht, hterminal,
      checkOrdering_congr os hbase hs ht]

theorem orderTerms_congr {s t : Scope} (hbase : s.base = t.base) (hs : s.fields = []) (ht : t.fields = [])
    (r : Request) : (orderTerms s r).2 = (orderTerms t r).2 ∧
      (s.joins = t.joins → (orderTerms s r).1.joins = (orderTerms t r).1.joins) := by
  unfold orderTerms
  split
  · exact ⟨by rw [checkOrdering_congr r.ordering hbase hs ht], id⟩
  · exact resolveOrdering_congr r.ordering hbase hs ht

theorem Scope.hasToManyJoins_eq (s : Scope) : s.hasToManyJoins = s.joinList.any Join.toMany := by
  unfold hasToManyJoins joinList
  rw [List.any_map]
  rfl

theorem Scope.hasJoins_eq (s : Scope) : s.hasJoins = !s.joinList.isEmpty := by
  unfold hasJoins joinList
  rw [List.isEmpty_map]

theorem outputOf_congr {s t : Scope} (hbase : s.base = t.base) : outputOf s none = outputOf t none := by
  obtain ⟨-, hroot, hlabel⟩ := Scope.base_inj.1 hbase
  simp only [outputOf, Scope.rootColumn, hroot, hlabel]

namespace Prepared.Alike
variable {p q : Prepared} (h : p.Alike q)
include h

theorem having_isEmpty : p.restriction.having.isEmpty = q.restriction.having.isEmpty := by
  have hempty := congrArg (fun x => x.having.isEmpty) h.restriction
  simpa only [Restriction.map, List.isEmpty_map] using hempty

theorem isEmpty : p.restriction.isEmpty = q.restriction.isEmpty := by
  have hempty := congrArg Restriction.isEmpty h.restriction
  simpa only [Restriction.isEmpty, Restriction.map, List.isEmpty_map] using hempty

theorem dataGrouping {s t : Scope} (hs : p.scope.Grows s) (ht : q.scope.Grows t) (selected : List Selected)
    (orders : List OrderTerm) :
    PageQuery.dataGrouping s.identity.expr p.restriction none selected orders =
      PageQuery.dataGrouping t.identity.expr q.restriction none selected orders := by
  obtain ⟨-, hroot, hlabel⟩ := Scope.base_inj.1 h.base
  have hidentity : p.scope.identity = q.scope.identity := by
    unfold Scope.identity
    rw [hroot, hlabel]
  unfold PageQuery.dataGrouping
  rw [hs.identity, ht.identity, hidentity, h.groupBy, h.having_isEmpty]

theorem dataPlan (r : Request) :
    FinishAlike
      (fun a b =>
        (a.statement.joins = b.statement.joins → a.parameters = b.parameters → a.unnumbered = b.unnumbered) ∧
        (p.LeaveAlike q → a.statement.joins = b.statement.joins ∧ a.parameters = b.parameters))
      (dataPlan r p) (dataPlan r q) := by
  have hgrows := grows_orderTerms p.scope r
  have hgrows' := grows_orderTerms q.scope r
  obtain ⟨horders, hjoins⟩ := orderTerms_congr h.base h.fields h.fields' r
  unfold PageQuery.dataPlan
  rw [h.projection, h.projection', outputOf_congr h.base]
  rcases hs : orderTerms p.scope r with ⟨s, e | orders⟩
  · rcases ht : orderTerms q.scope r with ⟨t, e' | orders'⟩
    · rw [hs, ht] at horders
      cases horders
      exact .error e
    · rw [hs, ht] at horders
      cases horders
  · rcases ht : orderTerms q.scope r with ⟨t, e' | orders'⟩
    · rw [hs, ht] at horders
      cases horders
    · rw [hs, ht] at horders
      cases horders
      rw [hs] at hgrows hjoins
      rw [ht] at hgrows' hjoins
      refine .ok ⟨fun hsame hparameters => ?_, fun hleft => ⟨?_, hleft.parameters⟩⟩
      · have hroot : s.root = t.root := by
          rw [hgrows.root, hgrows'.root]
          exact (Scope.base_inj.1 h.base).2.1
        have hconditions := congrArg Restriction.conditions h.restriction
        have hhaving := congrArg Restriction.having h.restriction
        simp only [Restriction.map] at hconditions hhaving
        simp only at hsame hparameters
        simp only [Plan.unnumbered, Statement.unnumbered, Scope.hasToManyJoins_eq, Scope.hasJoins_eq, hsame, hroot,
          hconditions, hhaving, hparameters, h.having_isEmpty, h.dataGrouping hgrows hgrows']
      · exact congrArg (List.map KeyedJoin.join) (hjoins hleft.joins)

end Prepared.Alike

/-! ## Totals -/

theorem rebase_same (a l : String) : rebase a a l = l := by
  rcases rebase_cases a a l with ⟨rfl, h⟩ | ⟨x, rfl, h⟩ | ⟨-, -, h⟩ <;> exact h

theorem unnumbered_countCondition {root : Entity} {idiom : CountIdiom} {label : String} {joins : List Join}
    {r r' : Restriction} (h : r.map Expr.unnumbered = r'.map Expr.unnumbered) :
    (countCondition root idiom label joins r).unnumbered = (countCondition root idiom label joins r').unnumbered := by
  have hconditions := congrArg Restriction.conditions h
  have hgroupBy := congrArg Restriction.groupBy h
  have hhaving := congrArg Restriction.having h
  simp only [Restriction.map] at hconditions hgroupBy hhaving
  cases idiom <;>
    simp only [countCondition, identitySubquery, Expr.unnumbered, Subquery.unnumbered_select, List.map_append,
      hconditions, hgroupBy, hhaving]

theorem residue_countPlanOver {root : Entity} {caps : Capabilities} {label : String} (hlabel : bareLabel label = label)
    (joins : List Join) (r : Restriction) (parameters : List Parameter) :
    (countPlanOver root caps label joins r parameters).unnumbered.residue = ⟨[], [joins], parameters⟩ := by
  have hjoins : joins.map (Join.relabel (rebase label label)) = joins := by
    rw [show Join.relabel (rebase label label) = id from funext fun j => by
      simp only [Join.relabel, Column.relabel, rebase_same]
      rfl]
    exact List.map_id joins
  have hcol : ∀ source name, (Expr.col source name).subqueries = [] := fun _ _ => rfl
  unfold countPlanOver countCondition
  cases caps.countIdiom <;>
    simp [Plan.residue, Plan.unnumbered, Statement.unnumbered, countStatement, identitySubquery, Expr.unnumbered,
      Subquery.unnumbered_select, Subquery.relabel_select, Expr.subqueries, Subquery.joins, hlabel, hjoins, hcol]

theorem countPlanOver_congr {root : Entity} {caps : Capabilities} {label : String} {joins : List Join}
    {r r' : Restriction} (h : r.map Expr.unnumbered = r'.map Expr.unnumbered) (parameters : List Parameter) :
    (countPlanOver root caps label joins r parameters).unnumbered =
      (countPlanOver root caps label joins r' parameters).unnumbered := by
  have hempty := congrArg (fun x => x.having.isEmpty) h
  simp only [Restriction.map, List.isEmpty_map] at hempty
  simp only [countPlanOver, countStatement, Plan.unnumbered, Statement.unnumbered, List.map_cons, List.map_nil,
    unnumbered_countCondition h, hempty]

section
variable {catalog : Catalog} {root : Entity} {recipe : Option Recipe}

theorem countPlan_kept (hwhole : ∀ x ∈ recipe, x = Recipe.wholeEntity) {caps : Capabilities} {r : Request}
    {p q : Prepared} (halike : p.Alike q)
    (hleft : DropsCleanly catalog root (r.required ++ r.optional) → p.LeaveAlike q) {a b c c' : Plan}
    (hjoined : a.profile.joined = b.profile.joined) (hc : (countPlan catalog root caps r recipe a p).2 = .ok c)
    (hc' : (countPlan catalog root caps (r.kept catalog root) recipe b q).2 = .ok c') :
    (c.unnumbered.residue = c'.unnumbered.residue → c.unnumbered = c'.unnumbered) ∧
      (DropsCleanly catalog root (r.required ++ r.optional) → c.unnumbered = c'.unnumbered) := by
  have counted : ∀ {label : String} {js js' : List Join} {p q : Prepared}, bareLabel label = label → p.Alike q →
      c = countPlanOver root caps label js p.restriction p.parameters →
      c' = countPlanOver root caps label js' q.restriction q.parameters →
      (c.unnumbered.residue = c'.unnumbered.residue → c.unnumbered = c'.unnumbered) ∧
        (js = js' → p.parameters = q.parameters → c.unnumbered = c'.unnumbered) := by
    rintro label js js' p q hlabel halike rfl rfl
    have hsame : js = js' → p.parameters = q.parameters → (countPlanOver root caps label js p.restriction
        p.parameters).unnumbered = (countPlanOver root caps label js' q.restriction q.parameters).unnumbered := by
      rintro rfl hparameters
      rw [hparameters]
      exact countPlanOver_congr halike.restriction _
    refine ⟨fun hresidue => ?_, hsame⟩
    rw [residue_countPlanOver hlabel, residue_countPlanOver hlabel, Residue.mk.injEq] at hresidue
    exact hsame (List.cons.inj hresidue.2.1).1 hresidue.2.2
  unfold countPlan at hc hc'
  rw [halike.isEmpty, hjoined] at hc
  cases hempty : q.restriction.isEmpty with
  | true =>
    simp only [hempty, if_true, Except.ok.injEq] at hc hc'
    rw [← hc, ← hc']
    exact ⟨fun _ => rfl, fun _ => rfl⟩
  | false =>
    cases hcopies : caps.copiesRestriction && !b.profile.joined with
    | true =>
      simp only [hempty, hcopies, Bool.false_eq_true, if_false, if_true, Except.ok.injEq] at hc hc'
      obtain ⟨hresidue, hsame⟩ := counted (show bareLabel dataLabel = dataLabel by decide) halike hc.symm hc'.symm
      exact ⟨hresidue, fun hclean => hsame rfl (hleft hclean).parameters⟩
    | false =>
      simp only [hempty, hcopies, Bool.false_eq_true, if_false] at hc hc'
      have hagain := prepare_kept catalog root hwhole r subqueryLabel
      generalize (prepare catalog root r recipe subqueryLabel).2 = x at hagain hc
      generalize (prepare catalog root (r.kept catalog root) recipe subqueryLabel).2 = y at hagain hc'
      cases hagain with
      | error e => cases hc
      | ok h =>
        obtain ⟨halike, hleft⟩ := h
        simp only [Except.map, Except.ok.injEq] at hc hc'
        obtain ⟨hresidue, hsame⟩ := counted (show bareLabel subqueryLabel = subqueryLabel by decide) halike hc.symm
          hc'.symm
        exact ⟨hresidue, fun hclean => hsame (congrArg (List.map KeyedJoin.join) (hleft hclean).joins)
          (hleft hclean).parameters⟩

theorem joined_dataPlan {r : Request} {p : Prepared} {data : Plan} (h : dataPlan r p = .ok data) :
    data.profile.joined = !data.statement.joins.isEmpty := by
  obtain ⟨s, orders, hparts⟩ := dataPlan_ok h
  rw [hparts.joined, hparts.joins, Scope.hasJoins_eq]

/-- **Without its dropped criteria a request fails as it does with them or is planned the same**, but for the joins and
operands they leave, and if they leave none, without exception. -/
theorem build_kept (catalog : Catalog) (root : Entity) (hwhole : ∀ x ∈ recipe, x = Recipe.wholeEntity)
    (caps : Capabilities) (r : Request) (wantCount requireProjection : Bool) :
    FinishAlike
      (fun plan plan' =>
        (plan.unnumbered = plan'.unnumbered ↔ plan.unnumbered.residue = plan'.unnumbered.residue) ∧
        (DropsCleanly catalog root (r.required ++ r.optional) → plan.unnumbered = plan'.unnumbered))
      (PagePlan.build catalog root caps r wantCount recipe requireProjection).2
      (PagePlan.build catalog root caps (r.kept catalog root) wantCount recipe requireProjection).2 := by
  have hprepare := prepare_kept catalog root hwhole r dataLabel
  unfold PagePlan.build PagePlan.buildFor
  simp only [Recipe.map_always]
  rcases hx : prepare catalog root r recipe dataLabel with ⟨journal, x⟩
  rcases hy : prepare catalog root (r.kept catalog root) recipe dataLabel with ⟨journal', y⟩
  rw [hx, hy] at hprepare
  cases hprepare with
  | error e => exact .error e
  | @ok p q h =>
    obtain ⟨halike, hleft⟩ := h
    have hkept : dataPlan (r.kept catalog root) q = dataPlan r q := rfl
    have hdata := halike.dataPlan r
    simp only [halike.projection, halike.projection', hkept]
    split
    · exact .error _
    · rcases ha : dataPlan r p with e | a <;> rcases hb : dataPlan r q with e' | b <;> rw [ha, hb] at hdata <;>
        cases hdata
      · exact .error e
      · next hsame =>
        obtain ⟨hsame, hclean⟩ := hsame
        have hparts : a.unnumbered.residue = b.unnumbered.residue → a.unnumbered = b.unnumbered ∧
            a.profile.joined = b.profile.joined := fun h => by
          have hjoins : a.statement.joins = b.statement.joins := congrArg Residue.joins h
          have hparameters : a.parameters = b.parameters := congrArg Residue.parameters h
          exact ⟨hsame hjoins hparameters, by rw [joined_dataPlan ha, joined_dataPlan hb, hjoins]⟩
        have hcleanly := fun h => hsame (hclean (hleft h)).1 (hclean (hleft h)).2
        cases wantCount with
        | false =>
          refine .ok ⟨⟨congrArg PagePlan.residue, fun h => ?_⟩, fun h => ?_⟩
          · exact congrArg (PagePlan.mk · none) (hparts (congrArg Prod.fst h)).1
          · exact congrArg (PagePlan.mk · none) (hcleanly h)
        | true =>
          obtain ⟨c, hc⟩ := exists_countPlan (congrArg Prod.snd hx) caps a
          obtain ⟨c', hc'⟩ := exists_countPlan (congrArg Prod.snd hy) caps b
          have hcount := fun hjoined => countPlan_kept hwhole halike hleft hjoined hc hc'
          simp only [if_true, hc, hc', Except.map]
          refine .ok ⟨⟨congrArg PagePlan.residue, fun h => ?_⟩, fun h => ?_⟩
          · obtain ⟨hdata, hjoined⟩ := hparts (congrArg Prod.fst h)
            exact congrArg₂ (fun x y => PagePlan.mk x (some y)) hdata
              ((hcount hjoined).1 (Option.some.inj (congrArg Prod.snd h)))
          · have hdata := hcleanly h
            exact congrArg₂ (fun x y => PagePlan.mk x (some y)) hdata
              ((hcount (hparts (congrArg Plan.residue hdata)).2).2 h)

end

namespace Sample

def adaWithoutPen : Request :=
  { Request.all with
    required := [⟨"orders.items", .negation (.value (.text "pen"))⟩, ⟨"name", .value (.text "Ada")⟩] }

def unreadableAmount : Request := { Request.all with required := [⟨"orders.amount", .value (.text "abc")⟩] }

end Sample

open Sample in
/-- The criterion that is no list is dropped and leaves nothing. -/
theorem ada_planned_by_name :
    ∃ plan plan',
      (PagePlan.build catalog person Backend.postgres.capabilities adaWithoutPen true (some .wholeEntity) false).2 =
        .ok plan ∧
      (PagePlan.build catalog person Backend.postgres.capabilities (adaWithoutPen.kept catalog person) true
        (some .wholeEntity) false).2 = .ok plan' ∧
      (adaWithoutPen.kept catalog person).required.map Filter.path = ["name"] ∧
      plan.unnumbered = plan'.unnumbered := by
  have hwhole : ∀ x ∈ some Recipe.wholeEntity, x = Recipe.wholeEntity := fun x hx => by
    cases hx
    rfl
  obtain ⟨plan, hplan, -⟩ := exists_ok (P := fun _ => True)
    (x := (PagePlan.build catalog person Backend.postgres.capabilities adaWithoutPen true (some .wholeEntity)
      false).2) (by decide +kernel)
  have hkept := build_kept catalog person hwhole Backend.postgres.capabilities adaWithoutPen
    true false
  rw [hplan] at hkept
  generalize (PagePlan.build catalog person Backend.postgres.capabilities (adaWithoutPen.kept catalog person) true
    (some .wholeEntity) false).2 = x at hkept ⊢
  cases hkept with
  | @ok _ plan' h => exact ⟨plan, plan', hplan, rfl, by decide +kernel, h.2 (by decide +kernel)⟩

open Sample in
/-- The amount that is no number has its orders joined all the same, so the rows need DISTINCT and a range. -/
theorem unreadable_amount_leaves_join :
    ∃ plan plan',
      (PagePlan.build catalog person Backend.postgres.capabilities unreadableAmount true (some .wholeEntity) false).2 =
        .ok plan ∧
      (PagePlan.build catalog person Backend.postgres.capabilities (unreadableAmount.kept catalog person) true
        (some .wholeEntity) false).2 = .ok plan' ∧
      (unreadableAmount.kept catalog person).required = [] ∧ plan.unnumbered ≠ plan'.unnumbered := by
  obtain ⟨plan, hplan, hdistinct⟩ := exists_ok (P := fun plan => plan.data.profile.distinct = true)
    (x := (PagePlan.build catalog person Backend.postgres.capabilities unreadableAmount true (some .wholeEntity)
      false).2) (by decide +kernel)
  obtain ⟨plan', hplan', hplain⟩ := exists_ok (P := fun plan => plan.data.profile.distinct = false)
    (x := (PagePlan.build catalog person Backend.postgres.capabilities (unreadableAmount.kept catalog person) true
      (some .wholeEntity) false).2) (by decide +kernel)
  refine ⟨plan, plan', hplan, hplan', List.isEmpty_iff.1 (by decide +kernel), fun h => ?_⟩
  have hprofile : plan.data.profile = plan'.data.profile := congrArg (fun x => x.data.profile) h
  rw [hprofile, hplain] at hdistinct
  cases hdistinct

end PageQuery
