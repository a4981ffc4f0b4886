import PageQuery.Proofs.Alternatives
import PageQuery.Proofs.Listed
import PageQuery.Proofs.PathsDecide
/-!
# Where the criteria of a request end up

The criteria take turns: each is compiled in the scope, and under the parameters, that those before it left.  In its
turn a criterion either fails softly and is reported, or comes to one predicate, which is of groups just if what it is
about is aggregated.  A restriction is those predicates in their places: the required ones one by one among the
conditions of rows or of groups, the optional ones together in one disjunction, and after the place of each required
list of several values the count that it asks for.
-/
namespace PageQuery

/-! ## The places of a restriction -/

namespace Predicate

def ofRows (p : Predicate) : List Expr :=
  match p.level with
  | .row => [p.expr]
  | .group => []

/-- What a required predicate asks of groups: itself, if it is of groups, and then the count that it asks for. -/
def ofGroups (p : Predicate) : List Expr :=
  match p.level with
  | .row => p.countTest.toList
  | .group => p.expr :: p.countTest.toList

end Predicate

def anyOfGroups (ps : List Predicate) : Bool := ps.any fun p => p.level == .group

def anyOf (ps : List Predicate) : List Expr := (Expr.disjunction (ps.map Predicate.expr)).toList

/-- The restriction is the conditions given, the required predicates and the optional ones, each in its place and in
their order, and a grouping by the identity where groups are restricted. -/
structure Restriction.Places (q : Restriction) (given : List Expr) (must may : List Predicate) (identity : Expr) :
    Prop where
  conditions : q.conditions = given ++ must.flatMap Predicate.ofRows ++ if anyOfGroups may then [] else anyOf may
  having : q.having = must.flatMap Predicate.ofGroups ++ if anyOfGroups may then anyOf may else []
  absent : anyOf may = [] ↔ may = []
  groupBy : q.groupBy = if q.having.isEmpty then [] else [identity]

theorem anyOf_eq_nil_iff {ps : List Predicate} : anyOf ps = [] ↔ ps = [] := by
  rw [anyOf, Option.toList_eq_nil_iff, disjunction_eq_none_iff, List.map_eq_nil_iff]

namespace Restriction

theorem addPredicate_eq (r : Restriction) (p : Predicate) :
    r.addPredicate p = ⟨r.conditions ++ p.ofRows, r.groupBy, r.having ++ p.ofGroups⟩ := by
  unfold addPredicate Predicate.ofRows Predicate.ofGroups
  cases p.level with
  | row => simp only
  | group => simp only [List.append_nil, List.append_assoc, List.singleton_append]

theorem foldl_addPredicate_eq (ps : List Predicate) : ∀ r : Restriction, ps.foldl addPredicate r =
    ⟨r.conditions ++ ps.flatMap Predicate.ofRows, r.groupBy, r.having ++ ps.flatMap Predicate.ofGroups⟩ := by
  induction ps with
  | nil =>
    intro r
    simp only [List.foldl_nil, List.flatMap_nil, List.append_nil]
  | cons p ps ih =>
    intro r
    rw [List.foldl_cons, ih, addPredicate_eq]
    simp only [List.flatMap_cons, List.append_assoc]

theorem addOptional_eq (r : Restriction) (ps : List Predicate) :
    r.addOptional ps = ⟨r.conditions ++ (if anyOfGroups ps then [] else anyOf ps), r.groupBy,
      r.having ++ (if anyOfGroups ps then anyOf ps else [])⟩ := by
  unfold addOptional anyOf anyOfGroups
  cases Expr.disjunction (ps.map Predicate.expr) with
  | none => simp only [Option.toList_none, ite_self, List.append_nil]
  | some e =>
    simp only [Option.toList_some]
    split <;> simp only [List.append_nil]

/-- **A routed restriction** has every predicate in its place. -/
theorem places_route (given : List Expr) (must may : List Predicate) (identity : Expr) :
    ((ofConditions given).route must may identity).Places given must may identity where
  conditions := by
    rw [conditions_route, foldl_addPredicate_eq, addOptional_eq]
    rfl
  having := by
    rw [having_route, foldl_addPredicate_eq, addOptional_eq]
    rfl
  absent := anyOf_eq_nil_iff
  groupBy := groupBy_route rfl must may identity

end Restriction

/-! ## What a criterion is about -/

/-- The predicate is of groups just if the term is aggregated, and asks for a count just if the criterion is a list of
several values on a collection. -/
structure Predicate.Targets (p : Predicate) (f : Filter) (t : Term) : Prop where
  field : p.field = f.path
  level : p.level = .group ↔ t.isAggregate = true
  count : ∀ e, p.countTest = some e ↔ ∃ items vs, f.criterion = .alternatives items ∧ t.isCollection = true ∧
    List.Forall₂ (Criterion.Spells t.type) items vs ∧ 1 < (Value.distinct vs).length ∧
    e = .compare .eq (.call .countDistinct t.expr) (.value (.int64 (Int64.ofInt (Value.distinct vs).length)))

/-- What a criterion comes to in a scope: it cannot be built on the term that it is about, and fails softly, or it can,
and is a predicate of that term. -/
inductive Filter.Settles (s : Scope) (f : Filter) : Except Failure Predicate → Prop
  | dropped {t : Term} {fault : CriterionFault} (ht : f.target s = .ok t)
      (hfault : (f.criterion.build t).outcome = .error fault) : f.Settles s (.error (.criterion f.path fault))
  | kept {t : Term} {b : Built} {p : Predicate} (ht : f.target s = .ok t)
      (hb : (f.criterion.build t).outcome = .ok b) (hp : p.Targets f t) : f.Settles s (.ok p)

theorem Filter.Settles.congr {s t : Scope} {f : Filter} {o : Except Failure Predicate} (h : f.Settles s o)
    (hbase : s.base = t.base) (hfields : s.fields = t.fields) : f.Settles t o := by
  have htarget := Filter.target_congr hbase hfields f
  cases h with
  | dropped ht hfault => exact .dropped (htarget.symm.trans ht) hfault
  | kept ht hb hp => exact .kept (htarget.symm.trans ht) hb hp

theorem Criterion.wanted_eq_none {t : Term} {c : Criterion} {b : Built} (hb : (c.build t).outcome = .ok b)
    (hlist : ¬(t.isCollection = true ∧ ∃ items, c = .alternatives items)) : b.wanted = none := by
  cases ht : t.isCollection with
  | false => exact Criterion.build_unlisted ht c b hb
  | true =>
    cases c with
    | alternatives items => exact absurd ⟨ht, items, rfl⟩ hlist
    | negation inner =>
      rw [Criterion.build_not] at hb
      obtain ⟨b', -, rfl⟩ := map_ok hb
      rfl
    | null =>
      simp only [Criterion.build] at hb
      cases hb
      rfl
    | value | numeric | enumerated | boolean | textMatch =>
      simp only [Criterion.build, ht, if_true, buildMembership] at hb
      cases hb

theorem Criterion.wanted_iff {t : Term} {c : Criterion} {b : Built} (hb : (c.build t).outcome = .ok b) (n : Nat) :
    b.wanted = some n ↔ ∃ items vs, c = .alternatives items ∧ t.isCollection = true ∧
      List.Forall₂ (Criterion.Spells t.type) items vs ∧ n = (Value.distinct vs).length := by
  by_cases hlist : t.isCollection = true ∧ ∃ items, c = .alternatives items
  · obtain ⟨ht, items, rfl⟩ := hlist
    simp only [Criterion.build, ht, if_true, buildMembership] at hb
    cases hvs : elementsOf t.type items with
    | error fault =>
      rw [hvs] at hb
      cases hb
    | ok vs =>
      rw [hvs] at hb
      cases hb
      constructor
      · intro hn
        exact ⟨items, vs, rfl, ht, elementsOf_ok_iff.1 hvs, (Option.some.inj hn).symm⟩
      · rintro ⟨items', vs', hitems, -, hspelled, rfl⟩
        cases hitems
        rw [elementsOf_ok_iff.2 hspelled] at hvs
        cases hvs
        rfl
  · rw [Criterion.wanted_eq_none hb hlist]
    constructor
    · intro hn
      cases hn
    · rintro ⟨items, vs, hitems, ht, -⟩
      exact absurd ⟨ht, items, hitems⟩ hlist

theorem targets_predicateOf {f : Filter} {t : Term} {b : Built} (hb : (f.criterion.build t).outcome = .ok b) :
    (predicateOf f.path t b).Targets f t where
  field := rfl
  level := by
    unfold predicateOf
    cases t.isAggregate with
    | false => exact iff_of_false nofun nofun
    | true => exact iff_of_true rfl rfl
  count e := by
    constructor
    · intro he
      cases hwanted : b.wanted with
      | none =>
        simp only [predicateOf, Predicate.countTest, hwanted, Option.map_none] at he
        cases he
      | some n =>
        obtain ⟨items, vs, hitems, ht, hspelled, rfl⟩ := (Criterion.wanted_iff hb n).1 hwanted
        simp only [predicateOf, Predicate.countTest, hwanted, Option.map_some] at he
        split at he
        · next hmany => exact ⟨items, vs, hitems, ht, hspelled, hmany, (Option.some.inj he).symm⟩
        · cases he
    · rintro ⟨items, vs, hitems, ht, hspelled, hmany, rfl⟩
      have hwanted := (Criterion.wanted_iff hb _).2 ⟨items, vs, hitems, ht, hspelled, rfl⟩
      simp only [predicateOf, Predicate.countTest, hwanted, Option.map_some, if_pos hmany]

theorem Term.isAggregate_of_needsGrouping {t : Term} (h : t.needsGrouping = true) : t.isAggregate = false := by
  unfold needsGrouping at h
  unfold isAggregate
  cases horigin : t.origin with
  | column | collection | derived => rfl
  | aggregate =>
    rw [horigin] at h
    cases h

theorem targets_of_negation {f : Filter} {t t' : Term} {p : Predicate} (hnegation : f.criterion.isNegation = true)
    (h : Predicate.Of f.path t' f.criterion p) (ht' : t'.isAggregate = false) (ht : t.isAggregate = false) :
    p.Targets f t := by
  obtain ⟨path, c⟩ := f
  obtain ⟨inner, rfl⟩ := Criterion.eq_negation hnegation
  suffices hp : p.field = path ∧ p.level = .row ∧ p.countTest = none by
    obtain ⟨hfield, hlevel, hcount⟩ := hp
    refine ⟨hfield, ?_, fun e => ?_⟩
    · rw [hlevel, ht]
      exact iff_of_false nofun nofun
    · rw [hcount]
      constructor
      · nofun
      · rintro ⟨items, vs, hlist, -⟩
        cases hlist
  cases h with
  | absent => exact ⟨rfl, rfl, rfl⟩
  | @asked _ u b hsame hb =>
    have hu : u.isAggregate = false := by
      obtain rfl | ⟨f, l, column, rfl, -⟩ := hsame
      · exact ht'
      · exact ht'
    have hwanted : b.wanted = none := Criterion.wanted_eq_none hb (by simp)
    unfold predicateOf Predicate.countTest
    rw [hu, hwanted]
    exact ⟨rfl, rfl, rfl⟩

section
variable {s : Scope} {f : Filter} {t : Term}

theorem Filter.settles_direct (hway : (f.criterion.isNegation && (s.field? f.path).isNone) = false)
    (htested : s.tested f.path f.criterion = .ok t) (ps : List Parameter) :
    f.Settles s (compile s f.path f.criterion ps).outcome := by
  have hdirect : (s.filterTarget f.path).2 = .ok t := by
    unfold Scope.tested at htested
    rwa [hway] at htested
  have htarget : f.target s = .ok t := by
    unfold Filter.target
    rwa [hway]
  cases hb : (f.criterion.build t).outcome with
  | error fault =>
    rw [compile_of_fault htested hb]
    exact .dropped htarget hb
  | ok b =>
    rw [compile_direct hway, (compileOnTerm_of_build ps (Prod.ext rfl hdirect) hb).2]
    exact .kept htarget hb (targets_predicateOf hb)

theorem Filter.settles_apart (hway : (f.criterion.isNegation && (s.field? f.path).isNone) = true)
    (htested : s.tested f.path f.criterion = .ok t) (ps : List Parameter) :
    f.Settles s (compile s f.path f.criterion ps).outcome := by
  have hdetached : (s.detached.filterTarget f.path).2 = .ok t := by
    unfold Scope.tested at htested
    rwa [hway] at htested
  -- in the scope of a subquery there are no fields, so the term is one that its path means
  have hrow := Term.isAggregate_of_needsGrouping (Scope.resolveMarked_column (s := s.detached) rfl hdetached).1
  rw [Scope.filterTarget_detached] at hdetached
  obtain ⟨u, hu, rfl⟩ := map_ok hdetached
  have htarget : f.target s = .ok u := by
    unfold Filter.target
    rwa [hway]
  cases hb : (f.criterion.build u).outcome with
  | error fault =>
    rw [compile_of_fault htested (build_relabel_error _ hb)]
    exact .dropped htarget hb
  | ok b =>
    obtain ⟨-, p, hp, hof⟩ := compile_of_build htested (build_relabel_ok _ hb) ps
    rw [hp]
    exact .kept htarget hb (targets_of_negation (Bool.and_eq_true_iff.1 hway).1 hof hrow hrow)

/-- **What a criterion comes to**, if it does not end the compiling. -/
theorem Filter.settles_compile {ps : List Parameter}
    (hsoft : ∀ e, (compile s f.path f.criterion ps).outcome = .error e → e.isSoft = true) :
    f.Settles s (compile s f.path f.criterion ps).outcome := by
  cases htested : s.tested f.path f.criterion with
  | error e =>
    have hfails := hsoft e (compile_of_tested_error htested ps)
    rw [Scope.tested_hard htested] at hfails
    cases hfails
  | ok t =>
    cases hway : f.criterion.isNegation && (s.field? f.path).isNone with
    | false => exact Filter.settles_direct hway htested ps
    | true => exact Filter.settles_apart hway htested ps

end

/-! ## Turns -/

def Dropped.filter (x : Dropped) : Filter := ⟨x.path, x.criterion⟩

structure Turn where
  filter : Filter
  outcome : Except Failure Predicate

namespace Turn

def kept? (x : Turn) : Option Predicate :=
  match x.outcome with
  | .ok p => some p
  | .error _ => none

def dropped? (x : Turn) : Option Dropped :=
  match x.outcome with
  | .ok _ => none
  | .error e => some ⟨x.filter.path, x.filter.criterion, e⟩

theorem isSome_dropped? (x : Turn) : x.dropped?.isSome = !x.kept?.isSome := by
  unfold dropped? kept?
  cases x.outcome <;> rfl

/-- The criteria that were reported, and those whose predicates were kept, are all the criteria, each once. -/
theorem perm_filters (xs : List Turn) :
    ((xs.filterMap dropped?).map Dropped.filter ++ (xs.filter fun x => x.kept?.isSome).map Turn.filter).Perm
      (xs.map Turn.filter) := by
  induction xs with
  | nil => exact .nil
  | cons x xs ih =>
    obtain ⟨f, e | p⟩ := x
    · exact ih.cons f
    · exact List.perm_middle.trans (ih.cons f)

end Turn

def turns (s : Scope) (ps : List Parameter) : List Filter → List Turn
  | [] => []
  | f :: fs =>
    let c := compile s f.path f.criterion ps
    ⟨f, c.outcome⟩ :: turns c.scope c.parameters fs

theorem filters_turns (fs : List Filter) : ∀ (s : Scope) (ps : List Parameter),
    (turns s ps fs).map Turn.filter = fs := by
  induction fs with
  | nil => exact fun _ _ => rfl
  | cons f fs ih =>
    intro s ps
    simp only [turns, List.map_cons, ih]

theorem soft_of_compileAll_ok {s : Scope} {ps : List Parameter} {f : Filter} {fs : List Filter} {preds : List Predicate}
    (h : (compileAll s ps (f :: fs)).outcome = .ok preds) {e : Failure}
    (he : (compile s f.path f.criterion ps).outcome = .error e) : e.isSoft = true := by
  cases hsoft : e.isSoft with
  | true => rfl
  | false =>
    simp only [compileAll, he, hsoft, Bool.false_eq_true, if_false] at h
    cases h

theorem compileAll_cons {s : Scope} {ps : List Parameter} {f : Filter}
    (hsoft : ∀ e, (compile s f.path f.criterion ps).outcome = .error e → e.isSoft = true) (fs : List Filter) :
    let c := compile s f.path f.criterion ps
    let rest := compileAll c.scope c.parameters fs
    let x : Turn := ⟨f, c.outcome⟩
    compileAll s ps (f :: fs) = ⟨rest.scope, rest.parameters, x.dropped?.toList ++ rest.dropped,
      rest.outcome.map (x.kept?.toList ++ ·)⟩ := by
  simp only [compileAll, Turn.dropped?, Turn.kept?]
  cases hp : (compile s f.path f.criterion ps).outcome with
  | ok p => rfl
  | error e =>
    have hsame : ∀ o : Except Failure (List Predicate), o = o.map ([] ++ ·) := fun o => by cases o <;> rfl
    simp only [hsoft e hp, if_true]
    exact congrArg (CompiledAll.mk _ _ _) (hsame _)

/-- **Criteria that were compiled took their turns**: those that failed were reported, in order, and the predicates are
those of the others. -/
theorem compileAll_turns {s₀ : Scope} (fs : List Filter) : ∀ {s : Scope} {ps : List Parameter} {preds : List Predicate},
    s.base = s₀.base → s.fields = s₀.fields → (compileAll s ps fs).outcome = .ok preds →
    preds = (turns s ps fs).filterMap Turn.kept? ∧
      (compileAll s ps fs).dropped = (turns s ps fs).filterMap Turn.dropped? ∧
      (∀ x ∈ turns s ps fs, x.filter.Settles s₀ x.outcome) ∧
      ∀ gs, turns s ps (fs ++ gs) =
        turns s ps fs ++ turns (compileAll s ps fs).scope (compileAll s ps fs).parameters gs := by
  induction fs with
  | nil =>
    intro s ps preds _ _ h
    cases h
    exact ⟨rfl, rfl, nofun, fun _ => rfl⟩
  | cons f fs ih =>
    intro s ps preds hbase hfields h
    have hgrows := grows_compile s f.path f.criterion ps
    have hsoft := fun e => soft_of_compileAll_ok h (e := e)
    have hcons := compileAll_cons hsoft fs
    simp only at hcons
    rw [hcons] at h ⊢
    obtain ⟨preds', hrest, rfl⟩ := map_ok h
    obtain ⟨rfl, hdropped, hsettled, happend⟩ := ih (hgrows.base.trans hbase) (hgrows.fields.trans hfields) hrest
    -- the scope may have grown since `s₀`, but what a criterion is about has not changed
    have hsettles : f.Settles s₀ (compile s f.path f.criterion ps).outcome :=
      (Filter.settles_compile hsoft).congr hbase hfields
    refine ⟨?_, ?_, List.forall_mem_cons.2 ⟨hsettles, hsettled⟩, fun gs => ?_⟩
    · simp only [turns, List.filterMap_eq_flatMap_toList, List.flatMap_cons]
    · simp only [turns, hdropped, List.filterMap_eq_flatMap_toList, List.flatMap_cons]
    · simp only [List.cons_append, turns, happend]

/-! ## Requests -/

/-- What a recipe that finished leaves to a request: the scope in which its fields shadow paths, and its conditions. -/
inductive Recipe.Leaves (s : Scope) : Option Recipe → Scope → List Expr → Prop
  | nothing : Recipe.Leaves s none s []
  | run {x : Recipe} {st : RunState} (hrun : RunState.run s x = (st, none)) :
      Recipe.Leaves s (some x) (st.scope.withFields (x.projection? st)) st.conditions

/-- The criteria of a request in their turns, those required and those optional: each settled in a scope, reported or
kept, and the kept ones in their places around the conditions given. -/
structure Request.Accounted (r : Request) (s : Scope) (given : List Expr) (dropped : List Dropped) (q : Restriction)
    (must may : List Turn) : Prop where
  inTurn : must ++ may = turns s [] (r.required ++ r.optional)
  required : must.map Turn.filter = r.required
  optional : may.map Turn.filter = r.optional
  settled : ∀ x ∈ must ++ may, x.filter.Settles s x.outcome ∧ x.dropped?.isSome = !x.kept?.isSome
  reported : dropped = (must ++ may).filterMap Turn.dropped?
  once : (dropped.map Dropped.filter ++ ((must ++ may).filter fun x => x.kept?.isSome).map Turn.filter).Perm
    (r.required ++ r.optional)
  places : q.Places given (must.filterMap Turn.kept?) (may.filterMap Turn.kept?) s.identity.expr

theorem accounted_restrict {s : Scope} {r : Request} {projection : Option Projection} {given : List Expr} {p : Prepared}
    (h : (restrict s r projection given).2 = .ok p) :
    ∃ must may, r.Accounted s given (restrict s r projection given).1 p.restriction must may := by
  obtain ⟨must, may, hmust, hmay, rfl⟩ := restrict_ok h
  have hgrows := grows_compileAll s [] r.required
  have hdropped : (restrict s r projection given).1 = (compileAll s [] r.required).dropped ++
      (compileAll (compileAll s [] r.required).scope (compileAll s [] r.required).parameters r.optional).dropped := by
    unfold restrict
    simp only [hmust, hmay]
  obtain ⟨rfl, hfirst, hsettled, happend⟩ := compileAll_turns r.required (Eq.refl s.base) rfl hmust
  obtain ⟨rfl, hsecond, hsettled', -⟩ := compileAll_turns r.optional hgrows.base hgrows.fields hmay
  rw [hfirst, hsecond, ← List.filterMap_append, ← happend] at hdropped
  have hfilters := filters_turns (r.required ++ r.optional) s []
  refine ⟨turns s [] r.required, turns (compileAll s [] r.required).scope (compileAll s [] r.required).parameters
    r.optional, ?_⟩
  exact
    { inTurn := (happend r.optional).symm
      required := filters_turns r.required s []
      optional := filters_turns r.optional _ _
      settled := fun x hx => ⟨(List.mem_append.1 hx).elim (hsettled x) (hsettled' x), x.isSome_dropped?⟩
      reported := by rw [hdropped, happend]
      once := by
        rw [hdropped, ← happend]
        exact (Turn.perm_filters _).trans (.of_eq hfilters)
      places := Restriction.places_route given _ _ _ }

/-- **No criterion of a request is lost or doubled.**  When a root was prepared, every criterion has come to its turn
after the recipe, and either failed softly and was reported once, by its path, or left its predicate in one place of the
restriction.  The conditions are those of the recipe, the required predicates about what is not aggregated and, unless
it goes to the groups, the disjunction of the optional ones; groups are restricted by the required predicates about what
is aggregated and the counts of the required lists, in order, and by the disjunction if one of its members is about what
is aggregated.  Rows are grouped, by the identity, just if groups are restricted. -/
theorem every_criterion_accounted_for {catalog : Catalog} {root : Entity} {r : Request} {recipe : Option Recipe}
    {label : String} {p : Prepared} (h : (prepare catalog root r recipe label).2 = .ok p) :
    ∃ s given must may, Recipe.Leaves (Scope.new catalog root label) recipe s given ∧
      s.identity.expr = Expr.col label root.identityColumn ∧
      r.Accounted s given (prepare catalog root r recipe label).1.dropped p.restriction must may := by
  rcases prepare_ok h with ⟨rfl, hp⟩ | ⟨x, st, rfl, hrun, hp⟩
  · obtain ⟨must, may, haccounted⟩ := accounted_restrict hp
    exact ⟨_, _, must, may, .nothing, rfl, haccounted⟩
  · obtain ⟨must, may, haccounted⟩ := accounted_restrict hp
    have hgrows := RunState.grows_run (Scope.new catalog root label) x
    rw [hrun] at hgrows
    refine ⟨_, _, must, may, .run hrun, congrArg Term.expr hgrows.identity, ?_⟩
    unfold prepare
    simpa only [hrun] using haccounted

namespace Sample

def numbered : Recipe :=
  ⟨[.measure .count (some "number") "orders", .measure .path none "name", .condition (.apply .isNotNull (.term 1))],
    false⟩

/-- Ada with both items among several orders, and an amount that cannot be read; preferably a certain number of orders
or no amount of 5, and a name above a number, which no text is. -/
def severalOrders : Request :=
  { Request.all with
    required :=
      [⟨"orders.amount", .value (.text "abc")⟩, ⟨"number", .numeric (.above (.integer 1))⟩, ⟨"orders.items", bothItems⟩,
        ⟨"name", .value (.text "Ada")⟩]
    optional :=
      [⟨"number", .value (.integer 2)⟩, ⟨"orders.amount", .negation (.value (.integer 5))⟩,
        ⟨"name", .numeric (.above (.integer 7))⟩] }

end Sample

open Sample in
/-- Two of the seven criteria are reported; of the others two are conditions of rows beside that of the recipe, and the
groups are restricted by the number of orders, the count of items and the disjunction. -/
theorem several_orders_accounted_for : ∃ p s given must may,
    (prepare catalog person severalOrders (some numbered) dataLabel).2 = .ok p ∧
    (prepare catalog person severalOrders (some numbered) dataLabel).1.dropped.map Dropped.path =
      ["orders.amount", "name"] ∧
    p.restriction.conditions.length = 3 ∧ p.restriction.having.length = 3 ∧
    Recipe.Leaves (Scope.new catalog person dataLabel) (some numbered) s given ∧
    severalOrders.Accounted s given (prepare catalog person severalOrders (some numbered) dataLabel).1.dropped
      p.restriction must may := by
  obtain ⟨p, hp, hconditions, hhaving⟩ := exists_ok
    (P := fun p : Prepared => p.restriction.conditions.length = 3 ∧ p.restriction.having.length = 3)
    (x := (prepare catalog person severalOrders (some numbered) dataLabel).2) (by decide +kernel)
  obtain ⟨s, given, must, may, hleaves, -, haccounted⟩ := every_criterion_accounted_for hp
  exact ⟨p, s, given, must, may, hp, by decide +kernel, hconditions, hhaving, hleaves, haccounted⟩

end PageQuery
