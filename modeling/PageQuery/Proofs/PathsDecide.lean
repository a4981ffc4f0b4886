import PageQuery.Proofs.Dropped
import PageQuery.Proofs.Failing
import PageQuery.Proofs.TestedTerms
/-!
# Whether a plan is built depends on the paths

A criterion that cannot be built is dropped, so what ends a build is a step of the recipe, a path that means nothing, or
a missing projection, whichever is first.  That failure is read off the catalog, the recipe and the paths in their order.
One thing more is read off the criterion, whether it is a negation: a negation looks for its path where no fields are,
and there a path may mean nothing that outside is covered by a field named like the path marked.
-/
namespace PageQuery

def failureOf {α : Type} : Except Failure α → Option Failure
  | .ok _ => none
  | .error e => some e

@[simp] theorem failureOf_ok {α : Type} (a : α) : failureOf (.ok a) = none := rfl

@[simp] theorem failureOf_error {α : Type} (e : Failure) : failureOf (.error e : Except Failure α) = some e := rfl

@[simp] theorem failureOf_map {α β : Type} (g : α → β) (x : Except Failure α) : failureOf (x.map g) = failureOf x := by
  cases x <;> rfl

theorem Catalog.leads_hard (c : Catalog) : c.Leads (fun _ => True) fun e => e.isSoft = false where
  invalid _ _ := rfl
  unknown _ _ := rfl
  target _ _ _ _ _ _ := c.failsBy_require rfl
  stays _ _ _ := trivial

theorem Scope.tested_hard {s : Scope} {path : String} {c : Criterion} {e : Failure} (h : s.tested path c = .error e) :
    e.isSoft = false := by
  unfold Scope.tested at h
  split at h
  · exact Scope.failsBy_resolveMarked s.detached.catalog.leads_hard trivial _ _ e h
  · exact Scope.failsBy_resolveMarked s.catalog.leads_hard trivial _ _ e h

/-! ## The failure of a filter -/

/-- A field named like the path marked stands in for a path that means nothing by itself. -/
def Scope.covers (s : Scope) (path : String) : Bool :=
  (s.field? path).isNone && (s.filterTarget path).2.isOk && !(s.base.filterTarget path).2.isOk

/-- The term that a filter is about: for a negation, where no fields shadow the path or stand in for it. -/
def Filter.target (s : Scope) (f : Filter) : Except Failure Term :=
  if f.criterion.isNegation && (s.field? f.path).isNone then (s.base.filterTarget f.path).2
  else (s.filterTarget f.path).2

/-- How the path of a filter fails: for a negation, where no fields shadow it or stand in for it. -/
def Filter.failure (s : Scope) (f : Filter) : Option Failure :=
  if f.criterion.isNegation && (s.field? f.path).isNone then failureOf (s.base.filterTarget f.path).2
  else failureOf (s.filterTarget f.path).2

section
variable {s t : Scope}

theorem Filter.failure_eq (s : Scope) (f : Filter) : f.failure s = failureOf (s.tested f.path f.criterion) := by
  unfold Filter.failure Scope.tested
  split
  · rw [Scope.filterTarget_detached, failureOf_map]
  · rfl

theorem Filter.failure_eq_target (s : Scope) (f : Filter) : f.failure s = failureOf (f.target s) := by
  unfold Filter.failure Filter.target
  split <;> rfl

theorem Filter.target_congr (hbase : s.base = t.base) (hfields : s.fields = t.fields) (f : Filter) :
    f.target s = f.target t := by
  unfold Filter.target Scope.filterTarget
  rw [Scope.resolveMarked_congr hbase hfields membershipPath f.path, hbase, Scope.field?_congr hfields]

theorem Filter.failure_congr (hbase : s.base = t.base) (hfields : s.fields = t.fields) (f : Filter) :
    f.failure s = f.failure t := by
  rw [Filter.failure_eq_target, Filter.failure_eq_target, Filter.target_congr hbase hfields]

/-- Where no field stands in for it, a path fails in a scope just as it fails without the fields. -/
theorem failureOf_base {path : String} (hfield : s.field? path = none) (hcovers : s.covers path = false) :
    failureOf (s.base.filterTarget path).2 = failureOf (s.filterTarget path).2 := by
  have hnone : ∀ name, s.base.field? name = none := fun _ => rfl
  unfold Scope.covers at hcovers
  unfold Scope.filterTarget Scope.resolveMarked at hcovers ⊢
  simp only [hfield, hnone, Scope.terminal_base] at hcovers ⊢
  cases ha : s.terminal path with
  | error e => rfl
  | ok a =>
    simp only [ha, Scope.resolve, hnone, Scope.trace_base] at hcovers ⊢
    generalize (if a.isCollection && !hasChar '@' path then membershipPath path else path) = target at hcovers ⊢
    cases hmarked : s.field? target with
    | none => rfl
    | some u =>
      simp only [hmarked] at hcovers ⊢
      cases htrace : (s.trace target).2 with
      | ok t => rfl
      | error e =>
        rw [htrace] at hcovers
        cases hcovers

/-- Filters on one path, and of one sign where a field stands in for it. -/
def Scope.TestsAlike (s : Scope) (f g : Filter) : Prop :=
  f.path = g.path ∧ (s.covers f.path = true → f.criterion.isNegation = g.criterion.isNegation)

instance (s : Scope) (f g : Filter) : Decidable (s.TestsAlike f g) :=
  inferInstanceAs (Decidable (_ ∧ (_ → _)))

theorem Scope.TestsAlike.failure {f g : Filter} (h : s.TestsAlike f g) : f.failure s = g.failure s := by
  obtain ⟨hpath, hsign⟩ := h
  unfold Filter.failure
  rw [← hpath]
  cases hcovers : s.covers f.path with
  | true => rw [hsign hcovers]
  | false =>
    cases hfield : s.field? f.path with
    | some u => simp only [Option.isNone_some, Bool.and_false, Bool.false_eq_true, if_false]
    | none => simp only [failureOf_base hfield hcovers, ite_self]

end

theorem findSome?_congr {s : Scope} {fs gs : List Filter} (h : List.Forall₂ s.TestsAlike fs gs) :
    fs.findSome? (Filter.failure s) = gs.findSome? (Filter.failure s) := by
  induction h with
  | nil => rfl
  | cons hfg _ ih => rw [List.findSome?_cons, List.findSome?_cons, hfg.failure, ih]

/-! ## The failure of a request -/

/-- **The first path that means nothing ends the compiling of filters**, and nothing else does. -/
theorem failureOf_compileAll (fs : List Filter) : ∀ (s : Scope) (ps : List Parameter),
    failureOf (compileAll s ps fs).outcome = fs.findSome? (Filter.failure s) := by
  induction fs with
  | nil => exact fun _ _ => rfl
  | cons f fs ih =>
    intro s ps
    have hgrows := grows_compile s f.path f.criterion ps
    have hrest := ih (compile s f.path f.criterion ps).scope (compile s f.path f.criterion ps).parameters
    rw [show Filter.failure (compile s f.path f.criterion ps).scope = Filter.failure s from
      funext fun g => Filter.failure_congr hgrows.base hgrows.fields g] at hrest
    rw [List.findSome?_cons, Filter.failure_eq]
    simp only [compileAll]
    cases htested : s.tested f.path f.criterion with
    | error e =>
      simp only [compile_of_tested_error htested, Scope.tested_hard htested, Bool.false_eq_true, if_false,
        failureOf_error]
    | ok t =>
      cases hbuilt : (f.criterion.build t).outcome with
      | error fault =>
        have hsoft : (Failure.criterion f.path fault).isSoft = true := rfl
        simp only [compile_of_fault htested hbuilt, hsoft, if_true, failureOf_ok, hrest]
      | ok b =>
        obtain ⟨-, p, hp, -⟩ := compile_of_build htested hbuilt ps
        simp only [hp, failureOf_map, failureOf_ok, hrest]

theorem failureOf_restrict (s : Scope) (r : Request) (projection : Option Projection) (conditions : List Expr) :
    failureOf (restrict s r projection conditions).2 =
      (r.required ++ r.optional).findSome? (Filter.failure s) := by
  have hgrows := grows_compileAll s [] r.required
  have hmust := failureOf_compileAll r.required s []
  have hmay := failureOf_compileAll r.optional (compileAll s [] r.required).scope (compileAll s [] r.required).parameters
  rw [show Filter.failure (compileAll s [] r.required).scope = Filter.failure s from
    funext fun g => Filter.failure_congr hgrows.base hgrows.fields g] at hmay
  unfold restrict
  rw [List.findSome?_append, ← hmust, ← hmay]
  cases hm : (compileAll s [] r.required).outcome with
  | error e => simp only [hm, failureOf_error, Option.some_or]
  | ok must =>
    simp only [hm, failureOf_ok, Option.none_or]
    cases (compileAll (compileAll s [] r.required).scope (compileAll s [] r.required).parameters
      r.optional).outcome <;> rfl

/-- How the path of an ordering fails: for a single row, it must end in an attribute. -/
def Ordering.failure (s : Scope) (single : Bool) (o : Ordering) : Option Failure :=
  if single then
    if (s.field? o.path).isNone then failureOf (s.terminal o.path) else none
  else failureOf (s.readTarget o.path).2

theorem failureOf_checkOrdering (s : Scope) : ∀ os : List Ordering,
    failureOf (checkOrdering s os) = os.findSome? (Ordering.failure s true)
  | [] => rfl
  | o :: os => by
    rw [List.findSome?_cons, ← failureOf_checkOrdering s os]
    simp only [checkOrdering, Ordering.failure, if_true]
    cases (s.field? o.path).isNone with
    | false => rfl
    | true =>
      simp only [if_true]
      cases s.terminal o.path <;> rfl

theorem failureOf_resolveOrdering (os : List Ordering) : ∀ s : Scope,
    failureOf (resolveOrdering s os).2 = os.findSome? (Ordering.failure s false) := by
  induction os with
  | nil => exact fun _ => rfl
  | cons o os ih =>
    intro s
    have hgrows := Scope.grows_readTarget s o.path
    have hrest := ih (s.readTarget o.path).1
    rw [show Ordering.failure (s.readTarget o.path).1 false = Ordering.failure s false from funext fun o' =>
      congrArg failureOf (Scope.resolveMarked_congr hgrows.base hgrows.fields sharedPath o'.path)] at hrest
    rw [List.findSome?_cons]
    simp only [resolveOrdering, Ordering.failure, Bool.false_eq_true, if_false] at hrest ⊢
    rcases hread : s.readTarget o.path with ⟨s', e | t⟩
    · rfl
    · rw [hread] at hrest
      simp only [failureOf_ok, failureOf_map, hrest]

theorem failureOf_orderTerms (s : Scope) (r : Request) :
    failureOf (orderTerms s r).2 = r.ordering.findSome? (Ordering.failure s (decide (r.limit = some 1))) := by
  unfold orderTerms
  by_cases hlimit : r.limit = some 1
  · rw [if_pos hlimit, decide_eq_true hlimit, failureOf_map, failureOf_checkOrdering]
  · rw [if_neg hlimit, decide_eq_false hlimit, failureOf_resolveOrdering]

theorem failureOf_dataPlan (r : Request) (p : Prepared) :
    failureOf (dataPlan r p) = r.ordering.findSome? (Ordering.failure p.scope (decide (r.limit = some 1))) := by
  rw [← failureOf_orderTerms]
  unfold dataPlan
  rcases orderTerms p.scope r with ⟨s, e | orders⟩ <;> rfl

/-! ## The failure of a build -/

def Recipe.ran (catalog : Catalog) (root : Entity) (x : Recipe) : RunState × Option Failure :=
  RunState.run (Scope.new catalog root dataLabel) x

def projectionOf (catalog : Catalog) (root : Entity) (recipe : Option Recipe) : Option Projection :=
  recipe.bind fun x => x.projection? (x.ran catalog root).1

/-- The scope that the criteria and the ordering of a request meet: that of the root, after its recipe. -/
def requestScope (catalog : Catalog) (root : Entity) : Option Recipe → Scope
  | none => Scope.new catalog root dataLabel
  | some x => (x.ran catalog root).1.scope.withFields (x.projection? (x.ran catalog root).1)

/-- **How a build fails**: by its recipe, else by the path of a filter, else for want of a projection, else by the path
of an ordering. -/
def buildFailure (catalog : Catalog) (root : Entity) (r : Request) (recipe : Option Recipe)
    (requireProjection : Bool) : Option Failure :=
  let s := requestScope catalog root recipe
  (recipe.bind fun x => (x.ran catalog root).2)
    |>.or ((r.required ++ r.optional).findSome? (Filter.failure s))
    |>.or (if requireProjection && (projectionOf catalog root recipe).isNone then some .projectionRequired else none)
    |>.or (r.ordering.findSome? (Ordering.failure s (decide (r.limit = some 1))))

section
variable {catalog : Catalog} {root : Entity} {r : Request} {recipe : Option Recipe}

theorem failureOf_prepare (catalog : Catalog) (root : Entity) (r : Request) (recipe : Option Recipe) :
    failureOf (prepare catalog root r recipe dataLabel).2 =
      (recipe.bind fun x => (x.ran catalog root).2).or
        ((r.required ++ r.optional).findSome? (Filter.failure (requestScope catalog root recipe))) := by
  unfold prepare requestScope
  cases recipe with
  | none => exact failureOf_restrict _ r none []
  | some x =>
    simp only [Option.bind_some, Recipe.ran]
    rcases RunState.run (Scope.new catalog root dataLabel) x with ⟨st, _ | e⟩
    · exact failureOf_restrict _ r (x.projection? st) st.conditions
    · rfl

theorem prepared_scope {p : Prepared} (h : (prepare catalog root r recipe dataLabel).2 = .ok p) :
    p.projection = projectionOf catalog root recipe ∧ (requestScope catalog root recipe).Grows p.scope := by
  rcases prepare_ok h with ⟨rfl, h⟩ | ⟨x, st, rfl, hrun, h⟩
  · exact grows_restrict h
  · unfold projectionOf requestScope
    simp only [Option.bind_some, Recipe.ran, hrun]
    exact grows_restrict h

theorem Ordering.failure_congr {s t : Scope} (hbase : s.base = t.base) (hfields : s.fields = t.fields) (single : Bool)
    (o : Ordering) : o.failure s single = o.failure t single := by
  unfold Ordering.failure Scope.readTarget
  rw [Scope.field?_congr hfields, Scope.terminal_congr hbase, Scope.resolveMarked_congr hbase hfields]

/-- **A build fails as its recipe and its paths say**, and the total adds no failure. -/
theorem failureOf_build (catalog : Catalog) (root : Entity) (caps : Capabilities) (r : Request) (wantCount : Bool)
    (recipe : Option Recipe) (requireProjection : Bool) :
    failureOf (PagePlan.build catalog root caps r wantCount recipe requireProjection).2 =
      buildFailure catalog root r recipe requireProjection := by
  have hprepare := failureOf_prepare catalog root r recipe
  unfold buildFailure
  simp only
  rw [← hprepare]
  unfold PagePlan.build PagePlan.buildFor
  simp only [Recipe.map_always]
  rcases hp : prepare catalog root r recipe dataLabel with ⟨journal, e | p⟩
  · rfl
  · obtain ⟨hprojection, hgrows⟩ := prepared_scope (congrArg Prod.snd hp)
    simp only [hprojection]
    split
    · rfl
    · have hdata := failureOf_dataPlan r p
      rw [show Ordering.failure p.scope (decide (r.limit = some 1)) = Ordering.failure (requestScope catalog root recipe)
        (decide (r.limit = some 1)) from funext fun o => Ordering.failure_congr hgrows.base hgrows.fields _ o] at hdata
      rw [← hdata]
      cases hd : dataPlan r p with
      | error e => rfl
      | ok data =>
        cases wantCount with
        | false => rfl
        | true =>
          obtain ⟨count, hcount⟩ := exists_countPlan (congrArg Prod.snd hp) caps data
          simp only [if_true, hcount]
          rfl

end

theorem failsBy_iff {α : Type} {P : Failure → Prop} {x : Except Failure α} : FailsBy P x ↔ ∀ e ∈ failureOf x, P e := by
  cases x with
  | ok a => simp [FailsBy]
  | error e => simp [FailsBy]

theorem base_requestScope (catalog : Catalog) (root : Entity) (recipe : Option Recipe) :
    (requestScope catalog root recipe).base = Scope.new catalog root dataLabel := by
  cases recipe with
  | none => rfl
  | some x => exact (RunState.grows_run (Scope.new catalog root dataLabel) x).base

section
variable {reached : Entity → Prop} {P : Failure → Prop}

theorem Filter.failsBy {s : Scope} (hleads : s.catalog.Leads reached P) (hroot : reached s.root) (fs : List Filter) :
    ∀ e ∈ fs.findSome? (Filter.failure s), P e := by
  intro e he
  obtain ⟨f, -, hf⟩ := List.exists_of_findSome?_eq_some he
  unfold Filter.failure at hf
  split at hf
  · exact failsBy_iff.1 (Scope.failsBy_resolveMarked (s := s.base) hleads hroot membershipPath f.path) e hf
  · exact failsBy_iff.1 (Scope.failsBy_resolveMarked hleads hroot membershipPath f.path) e hf

theorem Ordering.failsBy {s : Scope} (hleads : s.catalog.Leads reached P) (hroot : reached s.root) (single : Bool)
    (os : List Ordering) : ∀ e ∈ os.findSome? (Ordering.failure s single), P e := by
  intro e he
  obtain ⟨o, -, ho⟩ := List.exists_of_findSome?_eq_some he
  unfold Ordering.failure at ho
  split at ho
  · split at ho
    · exact failsBy_iff.1 (Scope.failsBy_terminal hleads hroot o.path) e ho
    · cases ho
  · exact failsBy_iff.1 (Scope.failsBy_resolveMarked hleads hroot sharedPath o.path) e ho

/-- **How a build fails** is said by the entities that walks from its root reach, but for the want of a projection. -/
theorem failsBy_buildFailure {catalog : Catalog} {root : Entity} {r : Request} {recipe : Option Recipe}
    {requireProjection : Bool} (hleads : catalog.Leads reached P) (hroot : reached root)
    (hprojection : P .projectionRequired) : ∀ e ∈ buildFailure catalog root r recipe requireProjection, P e := by
  intro e h
  have hbase := base_requestScope catalog root recipe
  unfold buildFailure at h
  simp only [Option.mem_def, Option.or_eq_some_iff] at h
  generalize requestScope catalog root recipe = s at h hbase
  obtain ⟨rfl, rfl⟩ : s.catalog = catalog ∧ s.root = root :=
    ⟨congrArg Scope.catalog hbase, congrArg Scope.root hbase⟩
  rcases h with ((h | ⟨-, h⟩) | ⟨-, h⟩) | ⟨-, h⟩
  · obtain ⟨x, -, hx⟩ := Option.bind_eq_some_iff.1 h
    exact RunState.failsBy_steps x.steps ⟨Scope.new s.catalog s.root dataLabel, [], [], []⟩ hleads hroot e hx
  · exact Filter.failsBy hleads hroot _ e h
  · split at h
    · cases h
      exact hprojection
    · cases h
  · exact Ordering.failsBy hleads hroot _ _ e h

end

/-- **Whether a plan is built depends on the paths.**  Two requests that name the same paths in the same places, with
negations in the same places where a field stands in for a path, are both planned or fail alike, whatever else their
criteria are, and no failure is that of a criterion. -/
theorem build_decided_by_paths (catalog : Catalog) (root : Entity) (caps caps' : Capabilities) {r r' : Request}
    (wantCount wantCount' : Bool) (recipe : Option Recipe) (requireProjection : Bool)
    (hrequired : List.Forall₂ (requestScope catalog root recipe).TestsAlike r.required r'.required)
    (hoptional : List.Forall₂ (requestScope catalog root recipe).TestsAlike r.optional r'.optional)
    (hordering : r.ordering = r'.ordering) (hlimit : r.limit = r'.limit) :
    failureOf (PagePlan.build catalog root caps r wantCount recipe requireProjection).2 =
        failureOf (PagePlan.build catalog root caps' r' wantCount' recipe requireProjection).2 ∧
      ∀ field fault, (PagePlan.build catalog root caps r wantCount recipe requireProjection).2 ≠
        .error (.criterion field fault) := by
  have hfilters : (r.required ++ r.optional).findSome? (Filter.failure (requestScope catalog root recipe)) =
      (r'.required ++ r'.optional).findSome? (Filter.failure (requestScope catalog root recipe)) :=
    findSome?_congr (List.rel_append hrequired hoptional)
  refine ⟨?_, fun field fault h => ?_⟩
  · rw [failureOf_build, failureOf_build]
    unfold buildFailure
    simp only [hfilters, hordering, hlimit]
  · have hfailure := failureOf_build catalog root caps r wantCount recipe requireProjection
    rw [h] at hfailure
    cases failsBy_buildFailure catalog.leads_hard trivial rfl _ hfailure.symm

namespace Sample

def unreadablePage : Request :=
  { Request.all with
    offset := 20
    required := [⟨"orders.amount", .value (.text "abc")⟩]
    optional := [⟨"orders.items", .negation (.alternatives [.value (.text "pen")])⟩] }

def readable : Request :=
  { Request.all with
    required := [⟨"orders.amount", .negation (.value (.integer 5))⟩]
    optional := [⟨"orders.items", bothItems⟩] }

def personsOnly : Catalog := .ofList [person]

def coveredOrders : Recipe := ⟨[.identity (some "@orders@")], false⟩

end Sample

open Sample in
/-- An amount that is no number is planned, since the same paths are planned with one that is. -/
theorem unreadable_page_planned :
    List.Forall₂ (requestScope catalog person none).TestsAlike unreadablePage.required readable.required ∧
    List.Forall₂ (requestScope catalog person none).TestsAlike unreadablePage.optional readable.optional ∧
    failureOf (PagePlan.build catalog person Backend.mysql.capabilities unreadablePage true none false).2 = none := by
  have hrequired : List.Forall₂ (requestScope catalog person none).TestsAlike unreadablePage.required
      readable.required := .cons (by decide +kernel) .nil
  have hoptional : List.Forall₂ (requestScope catalog person none).TestsAlike unreadablePage.optional
      readable.optional := .cons (by decide +kernel) .nil
  refine ⟨hrequired, hoptional, ?_⟩
  rw [(build_decided_by_paths catalog person Backend.mysql.capabilities Backend.postgres.capabilities true false none
    false hrequired hoptional rfl rfl).1]
  decide +kernel

open Sample in
/-- Where the identity stands in for the orders, that it is 5 can be asked and that it is not cannot: the negation looks
for the orders themselves. -/
theorem negated_cover_not_planned :
    failureOf (PagePlan.build personsOnly person Backend.postgres.capabilities
        { Request.all with required := [⟨"orders", .value (.integer 5)⟩] } false (some coveredOrders) true).2 = none ∧
      failureOf (PagePlan.build personsOnly person Backend.postgres.capabilities
        { Request.all with required := [⟨"orders", .negation (.value (.integer 5))⟩] } false (some coveredOrders)
        true).2 = some (.unknownEntity "order") := by
  decide +kernel

end PageQuery
