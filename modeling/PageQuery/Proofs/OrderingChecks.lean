import PageQuery.Proofs.PathsDecide
/-!
# How a single row checks its ordering

A single row needs no order, and its ordering is only checked: each path must end in an attribute.  To be sorted by, a
path must be read besides, and that asks for more.  So a single row overlooks some failures, and no other request does:
a mark on an attribute that is no collection, and a last relation to an entity that is not in the catalog.
-/
namespace PageQuery

namespace Scope
variable {s : Scope}

/-- The path ends in an attribute, and cannot be read all the same. -/
def Overlooks (s : Scope) (path : String) (e : Failure) : Prop :=
  (∃ a, s.terminal path = .ok a) ∧ (s.readTarget path).2 = .error e

/-! ## What is overlooked -/

/-- The text of a path shows in its failures only. -/
theorem walk_renamed {path : String} (path' : String) : ∀ {segments : List String} {p q : Position},
    (s.walk path p segments).2 = .ok q → s.walk path' p segments = s.walk path p segments
  | [], _, _, _ => rfl
  | segment :: rest, p, q, h => by
    obtain ⟨j, p', hstep, hrest, -⟩ := walk_cons_ok h
    have hstep' : s.step path' p segment = .ok (j, p') := by
      unfold step at hstep ⊢
      split at hstep
      · cases hstep
      · next hmark =>
        rw [if_neg hmark]
        cases ha : p.entity.lookup segment with
        | error e =>
          rw [ha] at hstep
          cases hstep
        | ok a =>
          rw [ha] at hstep
          obtain ⟨name, type, storage⟩ := a
          cases storage with
          | column c | collection t k v => cases hstep
          | toOne target key | toMany target column => exact hstep
    simp only [walk, hstep, hstep', walk_renamed path' hrest]

theorem leaf_error {path segment name : String} {marker : Marker} {p : Position} {a : Attribute} {e : Failure}
    (hmarker : parseMarker path segment = .ok (name, marker)) (ha : p.entity.lookup name = .ok a)
    (h : s.leaf path p segment = .error e) :
    (a.isCollection = false ∧ marker ≠ .plain ∧ e = .invalidPath path (.notCollection name)) ∨
      ∃ target ∈ Catalog.targetOf a.storage, s.catalog.entity? target = none ∧ e = .unknownEntity target := by
  have hrequire : ∀ {target : String}, s.catalog.require target = .error e →
      s.catalog.entity? target = none ∧ e = .unknownEntity target := fun {target} he => by
    unfold Catalog.require at he
    split at he
    · cases he
    · next hnone => exact ⟨hnone, (Except.error.inj he).symm⟩
  unfold leaf at h
  rw [hmarker] at h
  obtain ⟨called, type, storage⟩ := a
  cases storage with
  | column c =>
    cases marker with
    | plain => simp [ha, bind, Except.bind] at h
    | shared | membership =>
      simp only [ha, bind, Except.bind, Except.error.injEq] at h
      exact .inl ⟨rfl, by simp, h.symm⟩
  | toOne target key =>
    cases marker with
    | plain =>
      cases he : s.catalog.require target with
      | ok e => simp [ha, he, bind, Except.bind] at h
      | error e' =>
        simp only [ha, he, bind, Except.bind, Except.error.injEq] at h
        subst h
        exact .inr ⟨target, rfl, hrequire he⟩
    | shared | membership =>
      simp only [ha, bind, Except.bind, Except.error.injEq] at h
      exact .inl ⟨rfl, by simp, h.symm⟩
  | toMany target column =>
    cases he : s.catalog.require target with
    | ok e => cases marker <;> simp [ha, he, bind, Except.bind] at h
    | error e' =>
      have he' : e' = e := by cases marker <;> simpa [ha, he, bind, Except.bind] using h
      subst he'
      exact .inr ⟨target, rfl, hrequire he⟩
  | collection table key value => cases marker <;> simp [ha, bind, Except.bind] at h

theorem trace_error {path : String} {segments : FieldPath} {p : Position} {e : Failure}
    (hparse : FieldPath.parse path = .ok segments) (hwalk : (s.walk path s.start segments.parents).2 = .ok p)
    (h : (s.trace path).2 = .error e) : s.leaf path p segments.last = .error e := by
  unfold trace at h
  rw [hparse] at h
  rcases hwalked : s.walk path s.start segments.parents with ⟨js, e' | q⟩
  · rw [hwalked] at hwalk
    cases hwalk
  · rw [hwalked] at hwalk
    cases hwalk
    cases hleaf : s.leaf path p segments.last with
    | error e' =>
      simp only [hwalked, hleaf, Except.error.injEq] at h
      exact congrArg Except.error h
    | ok jt =>
      simp only [hwalked, hleaf] at h
      cases h

/-- **What a single row overlooks**: that a mark is on no collection, or that the last relation leads to no entity. -/
theorem Overlooks.failure {path : String} {e : Failure} (h : s.Overlooks path e) :
    (∃ name, e = .invalidPath path (.notCollection name)) ∨
      ∃ a target, s.terminal path = .ok a ∧ target ∈ Catalog.targetOf a.storage ∧ s.catalog.entity? target = none ∧
        e = .unknownEntity target := by
  obtain ⟨⟨a, ha⟩, hread⟩ := h
  obtain ⟨segments, p, name, marker, hparse, hwalk, hmarker, hlookup⟩ := terminal_ok ha
  have hleads : ∀ {target : String}, (s.resolve target).2 = .error e → (s.trace target).2 = .error e :=
    fun {target} hresolve => by
      unfold resolve at hresolve
      cases hfield : s.field? target with
      | some u =>
        rw [hfield] at hresolve
        cases hresolve
      | none =>
        rw [hfield] at hresolve
        exact hresolve
  unfold readTarget resolveMarked at hread
  cases hfield : s.field? path with
  | some u =>
    rw [hfield] at hread
    cases hread
  | none =>
    simp only [hfield, ha] at hread
    have htrace := hleads hread
    by_cases hcond : (a.isCollection && !hasChar '@' path) = true
    · -- an unmarked collection is read through the path marked, so its mark is no mistake
      rw [if_pos hcond] at htrace
      obtain ⟨hmany, hunmarked⟩ := Bool.and_eq_true_iff.1 hcond
      have hlast : '@' ∉ segments.last.toList := notMem_last_of_unmarked hparse (by simpa using hunmarked)
      have hparse' : FieldPath.parse (sharedPath path) = .ok ⟨segments.parents, "@" ++ segments.last ++ ""⟩ :=
        parse_marked (by decide) hparse
      generalize sharedPath path = marked at htrace hparse'
      have hwalk' : (s.walk marked s.start segments.parents).2 = .ok p := by
        rw [walk_renamed marked hwalk]
        exact hwalk
      have hleaf := trace_error hparse' hwalk' htrace
      obtain ⟨hone, -⟩ | ⟨target, htarget, hnone, he⟩ :=
        leaf_error (parseMarker_shared marked hmarker hlast) hlookup hleaf
      · rw [hmany] at hone
        cases hone
      · exact .inr ⟨a, target, ha, htarget, hnone, he⟩
    · rw [if_neg hcond] at htrace
      obtain ⟨-, -, he⟩ | ⟨target, htarget, hnone, he⟩ := leaf_error hmarker hlookup (trace_error hparse hwalk htrace)
      · exact .inl ⟨name, he⟩
      · exact .inr ⟨a, target, ha, htarget, hnone, he⟩

end Scope

/-! ## One ordering -/

theorem failureOf_eq_some {α : Type} {x : Except Failure α} {e : Failure} : failureOf x = some e ↔ x = .error e := by
  cases x <;> simp

theorem failureOf_eq_none {α : Type} {x : Except Failure α} : failureOf x = none ↔ ∃ a, x = .ok a := by
  cases x <;> simp

namespace Ordering
variable {s : Scope} {o : Ordering} {e : Failure}

theorem failure_of_single (h : o.failure s true = some e) : o.failure s false = some e := by
  simp only [failure, if_true, Bool.false_eq_true, if_false] at h ⊢
  split at h
  · next hfield =>
    rw [Option.isNone_iff_eq_none] at hfield
    rw [failureOf_eq_some] at h ⊢
    unfold Scope.readTarget Scope.resolveMarked
    simp only [hfield, h]
  · cases h

theorem failure_or_overlooks (h : o.failure s false = some e) : o.failure s true = some e ∨
    s.Overlooks o.path e ∧ o.failure s true = none := by
  cases hsingle : o.failure s true with
  | some e' => exact .inl ((failure_of_single hsingle).symm.trans h)
  | none =>
    simp only [failure, if_true, Bool.false_eq_true, if_false] at h hsingle
    have hread := failureOf_eq_some.1 h
    refine .inr ⟨⟨?_, hread⟩, rfl⟩
    split at hsingle
    · exact failureOf_eq_none.1 hsingle
    · next hfield =>
      rw [Option.isNone_iff_eq_none] at hfield
      obtain ⟨u, hu⟩ := Option.ne_none_iff_exists'.1 hfield
      unfold Scope.readTarget Scope.resolveMarked at hread
      rw [hu] at hread
      cases hread

/-! ## All of an ordering -/

theorem exists_failure_of_single {os : List Ordering} (h : os.findSome? (failure s true) = some e) :
    ∃ e', os.findSome? (failure s false) = some e' := by
  obtain ⟨o, ho, hfails⟩ := List.exists_of_findSome?_eq_some h
  exact Option.isSome_iff_exists.1 (List.findSome?_isSome_iff.2 ⟨o, ho, by rw [failure_of_single hfails]; rfl⟩)

theorem findSome?_or_overlooks : ∀ {os : List Ordering}, os.findSome? (failure s false) = some e →
    os.findSome? (failure s true) = some e ∨ ∃ o ∈ os, s.Overlooks o.path e
  | [], h => by cases h
  | o :: os, h => by
    rw [List.findSome?_cons] at h ⊢
    cases ho : o.failure s false with
    | some e' =>
      rw [ho] at h
      cases h
      obtain hsingle | ⟨hoverlooks, -⟩ := failure_or_overlooks ho
      · exact .inl (by rw [hsingle])
      · exact .inr ⟨o, List.mem_cons_self, hoverlooks⟩
    | none =>
      rw [ho] at h
      have hsingle : o.failure s true = none := by
        cases hsingle : o.failure s true with
        | none => rfl
        | some e' => exact absurd (failure_of_single hsingle) (by rw [ho]; exact fun h => by cases h)
      rw [hsingle]
      obtain hrest | ⟨o', ho', hoverlooks⟩ := findSome?_or_overlooks h
      · exact .inl hrest
      · exact .inr ⟨o', List.mem_cons_of_mem o ho', hoverlooks⟩

theorem isSome_failure_iff {os : List Ordering} : (os.findSome? (failure s false)).isSome = true ↔
    (os.findSome? (failure s true)).isSome = true ∨ ∃ o ∈ os, ∃ e, s.Overlooks o.path e := by
  constructor
  · intro h
    obtain ⟨e, he⟩ := Option.isSome_iff_exists.1 h
    obtain hsingle | ⟨o, ho, hoverlooks⟩ := findSome?_or_overlooks he
    · exact .inl (by rw [hsingle]; rfl)
    · exact .inr ⟨o, ho, e, hoverlooks⟩
  · rintro (h | ⟨o, ho, e, -, hread⟩)
    · obtain ⟨e, he⟩ := Option.isSome_iff_exists.1 h
      exact Option.isSome_iff_exists.2 (exists_failure_of_single he)
    · have hfailure : o.failure s false = some e := failureOf_eq_some.2 hread
      exact List.findSome?_isSome_iff.2 ⟨o, ho, by rw [hfailure]; rfl⟩

theorem findSome?_single {os : List Ordering} (h : ∀ o ∈ os, ∀ e, ¬s.Overlooks o.path e) :
    os.findSome? (failure s true) = os.findSome? (failure s false) := by
  cases hother : os.findSome? (failure s false) with
  | some e =>
    obtain hsingle | ⟨o, ho, hoverlooks⟩ := findSome?_or_overlooks hother
    · exact hsingle
    · exact absurd hoverlooks (h o ho e)
  | none =>
    cases hsingle : os.findSome? (failure s true) with
    | none => rfl
    | some e =>
      obtain ⟨e', he'⟩ := exists_failure_of_single hsingle
      rw [hother] at he'
      cases he'

end Ordering

/-! ## Builds -/

section
variable (catalog : Catalog) (root : Entity) (caps : Capabilities) (r : Request) (wantCount : Bool)
  (recipe : Option Recipe) (requireProjection : Bool)

/-- The build fails with `e`, and for its ordering: without that there is a plan. -/
def FailsByOrdering (e : Failure) : Prop :=
  (PagePlan.build catalog root caps r wantCount recipe requireProjection).2 = .error e ∧
    ∃ plan, (PagePlan.build catalog root caps { r with ordering := [] } wantCount recipe requireProjection).2 = .ok plan

def orderingFailure : Option Failure :=
  r.ordering.findSome? (Ordering.failure (requestScope catalog root recipe) (decide (r.limit = some 1)))

theorem buildFailure_eq_or : buildFailure catalog root r recipe requireProjection =
    (buildFailure catalog root { r with ordering := [] } recipe requireProjection).or
      (orderingFailure catalog root r recipe) := by
  unfold buildFailure orderingFailure
  simp only [List.findSome?_nil, Option.or_none]

variable {catalog root caps r wantCount recipe requireProjection}

theorem failsByOrdering_iff {e : Failure} : FailsByOrdering catalog root caps r wantCount recipe requireProjection e ↔
    buildFailure catalog root { r with ordering := [] } recipe requireProjection = none ∧
      orderingFailure catalog root r recipe = some e := by
  unfold FailsByOrdering
  rw [← failureOf_eq_some, ← failureOf_eq_none, failureOf_build, failureOf_build, buildFailure_eq_or, and_comm]
  refine and_congr_right fun hnone => ?_
  rw [hnone, Option.none_or]

theorem exists_failsByOrdering_iff :
    (∃ e, FailsByOrdering catalog root caps r wantCount recipe requireProjection e) ↔
      buildFailure catalog root { r with ordering := [] } recipe requireProjection = none ∧
        (orderingFailure catalog root r recipe).isSome = true := by
  simp only [failsByOrdering_iff, exists_and_left, Option.isSome_iff_exists]

theorem exists_plan_iff :
    (∃ plan, (PagePlan.build catalog root caps r wantCount recipe requireProjection).2 = .ok plan) ↔
      buildFailure catalog root { r with ordering := [] } recipe requireProjection = none ∧
        orderingFailure catalog root r recipe = none := by
  rw [← failureOf_eq_none, failureOf_build, buildFailure_eq_or, Option.or_eq_none_iff]

theorem orderingFailure_alike {l l' : Option UInt64} (h : (l = some 1 ↔ l' = some 1) ∨
    ∀ o ∈ r.ordering, ∀ e, ¬(requestScope catalog root recipe).Overlooks o.path e) :
    orderingFailure catalog root { r with limit := l } recipe =
      orderingFailure catalog root { r with limit := l' } recipe := by
  unfold orderingFailure
  rcases h with hlimits | hread
  · simp only [hlimits]
  · have hboth := Ordering.findSome?_single hread
    cases decide (l = some 1) <;> cases decide (l' = some 1) <;> simp only [hboth]

end

/-- **A single row overlooks what only reading finds.**  Requests that differ in their limits alone fail alike by their
orderings, if both or neither asks for a single row or if no path is overlooked.  Whatever fails for a single row fails
for any other request, which fails besides for what a single row overlooks: marks on no collection, and last relations
that lead to no entity. -/
theorem orderings_checked_alike (catalog : Catalog) (root : Entity) (caps : Capabilities) (r : Request)
    (wantCount : Bool) (recipe : Option Recipe) (requireProjection : Bool) :
    let s := requestScope catalog root recipe
    let fails := fun limit =>
      FailsByOrdering catalog root caps { r with limit := limit } wantCount recipe requireProjection
    (∀ l l', ((l = some 1 ↔ l' = some 1) ∨ ∀ o ∈ r.ordering, ∀ e, ¬s.Overlooks o.path e) → ∀ e,
        fails l e ↔ fails l' e) ∧
      (∀ l, l ≠ some 1 →
        ((∃ e, fails l e) ↔ (∃ e, fails (some 1) e) ∨ (∃ o ∈ r.ordering, ∃ e, s.Overlooks o.path e) ∧ ∃ plan,
          (PagePlan.build catalog root caps { r with limit := some 1 } wantCount recipe requireProjection).2 =
            .ok plan) ∧
        ∀ e, fails l e → fails (some 1) e ∨ ∃ o ∈ r.ordering, s.Overlooks o.path e) ∧
      ∀ o ∈ r.ordering, ∀ e, s.Overlooks o.path e →
        (∃ name, e = .invalidPath o.path (.notCollection name)) ∨
          ∃ a target, s.terminal o.path = .ok a ∧ target ∈ Catalog.targetOf a.storage ∧ catalog.entity? target = none ∧
            e = .unknownEntity target := by
  intro s fails
  have hcatalog : s.catalog = catalog := congrArg Scope.catalog (base_requestScope catalog root recipe)
  -- without its ordering, a request fails whatever its limit
  have hfails : ∀ l e, fails l e ↔ buildFailure catalog root { r with ordering := [] } recipe requireProjection = none ∧
      orderingFailure catalog root { r with limit := l } recipe = some e := fun l e => failsByOrdering_iff
  have hexists : ∀ l, (∃ e, fails l e) ↔ buildFailure catalog root { r with ordering := [] } recipe requireProjection =
      none ∧ (orderingFailure catalog root { r with limit := l } recipe).isSome = true :=
    fun l => exists_failsByOrdering_iff
  have hplanned : (∃ plan, (PagePlan.build catalog root caps { r with limit := some 1 } wantCount recipe
      requireProjection).2 = .ok plan) ↔ buildFailure catalog root { r with ordering := [] } recipe requireProjection =
        none ∧ orderingFailure catalog root { r with limit := some 1 } recipe = none := exists_plan_iff
  have hsingle : orderingFailure catalog root { r with limit := some 1 } recipe =
      r.ordering.findSome? (Ordering.failure s true) := rfl
  refine ⟨fun l l' halike e => ?_, fun l hl => ?_, fun o ho e he => ?_⟩
  · rw [hfails, hfails, orderingFailure_alike halike]
  · have hother : orderingFailure catalog root { r with limit := l } recipe =
        r.ordering.findSome? (Ordering.failure s false) := by
      unfold orderingFailure
      simp only [decide_eq_false hl]
      rfl
    constructor
    · rw [hexists, hexists, hplanned, hother, hsingle, Ordering.isSome_failure_iff]
      cases r.ordering.findSome? (Ordering.failure s true) <;> simp [and_comm]
    · intro e he
      rw [hfails, hother] at he
      rw [hfails, hsingle]
      exact (Ordering.findSome?_or_overlooks he.2).imp_left fun h => ⟨he.1, h⟩
  · rw [← hcatalog]
    exact he.failure

namespace Sample

def byNickname : Request := { Request.all with ordering := [⟨"nickname", true⟩] }
def byMarkedName : Request := { Request.all with ordering := [⟨"@name", true⟩] }

end Sample

open Sample in
/-- What is no attribute is refused for a single row, and so for every other page. -/
theorem nickname_refused_alike :
    FailsByOrdering catalog person Backend.postgres.capabilities { byNickname with limit := some 1 } true none false
        (.unknownAttribute "person" "nickname") ∧
      FailsByOrdering catalog person Backend.postgres.capabilities { byNickname with limit := some 20 } true none false
        (.unknownAttribute "person" "nickname") := by
  have hone : FailsByOrdering catalog person Backend.postgres.capabilities { byNickname with limit := some 1 } true none
      false (.unknownAttribute "person" "nickname") :=
    ⟨failureOf_eq_some.1 (by decide +kernel), failureOf_eq_none.1 (by decide +kernel)⟩
  have halike := (orderings_checked_alike catalog person Backend.postgres.capabilities byNickname true none false).1
    (some 1) (some 20) (.inr fun o ho e he => by
      rw [List.mem_singleton.1 ho] at he
      obtain ⟨⟨a, ha⟩, -⟩ := he
      cases ha) (.unknownAttribute "person" "nickname")
  exact ⟨hone, halike.1 hone⟩

open Sample in
/-- A mark on the name is refused for two rows and overlooked for one. -/
theorem marked_name_overlooked :
    FailsByOrdering catalog person Backend.postgres.capabilities { byMarkedName with limit := some 2 } false none false
        (.invalidPath "@name" (.notCollection "name")) ∧
      ∀ e, ¬FailsByOrdering catalog person Backend.postgres.capabilities { byMarkedName with limit := some 1 } false
        none false e := by
  refine ⟨⟨failureOf_eq_some.1 (by decide +kernel), failureOf_eq_none.1 (by decide +kernel)⟩, fun e he => ?_⟩
  have hplanned : failureOf (PagePlan.build catalog person Backend.postgres.capabilities
      { byMarkedName with limit := some 1 } false none false).2 = none := by decide +kernel
  rw [he.1] at hplanned
  cases hplanned

end PageQuery
