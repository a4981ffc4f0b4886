import PageQuery.Proofs.JoinLabels
/-!
# Terms remembered

A scope may remember the term of every path that it resolved and answer with it when the path comes again.  What is
remembered is what the path means, and the joins of the path are there already.  So a scope that remembers answers as
one that walks every path anew, and its joins are the same.  Failures are not remembered: their path is walked again,
and fails again without a new join.
-/
namespace PageQuery

/-- A scope and the terms of paths resolved in it. -/
structure RememberingScope where
  scope : Scope
  known : List (String × Term)

/-! ## Answers -/

namespace Scope

def answers : Scope → List String → List (String × Except Failure Term)
  | _, [] => []
  | s, path :: rest => (path, (s.resolve path).2) :: answers (s.resolve path).1 rest

theorem addJoins_of_mem : ∀ {js : List KeyedJoin} {s : Scope}, (∀ j ∈ js, j.key ∈ s.joins.map KeyedJoin.key) →
    s.addJoins js = s
  | [], _, _ => rfl
  | j :: js, s, h => by
    show (s.addJoin j).addJoins js = s
    rw [addJoin_of_mem (h j List.mem_cons_self)]
    exact addJoins_of_mem fun k hk => h k (List.mem_cons_of_mem j hk)

def Has (s : Scope) (path : String) : Prop := ∀ j ∈ (s.trace path).1, j.key ∈ s.joins.map KeyedJoin.key

variable {s s' : Scope} {path : String}

theorem has_addPath (s : Scope) (path : String) : (s.addJoins (s.trace path).1).Has path := fun j hj => by
  rw [(grows_addPath s path).trace] at hj
  exact key_mem_addJoins hj

theorem Has.later (hs : s.Grows s') (h : s.Has path) : s'.Has path := fun j hj => by
  rw [hs.trace] at hj
  exact (hs.joins.map KeyedJoin.key).subset (h j hj)

theorem resolve_of_field (hfield : s.field? path = none) :
    s.resolve path = (s.addJoins (s.trace path).1, (s.trace path).2) := by
  unfold resolve
  rw [hfield]

theorem Grows.field? (hs : s.Grows s') (name : String) : s'.field? name = s.field? name := field?_congr hs.fields name

theorem grows_resolveAll (s : Scope) : ∀ paths, s.Grows (s.resolveAll paths)
  | [] => .refl s
  | path :: rest => (grows_resolve s path).trans (grows_resolveAll (s.resolve path).1 rest)

end Scope

/-! ## Resolving with what is remembered -/

namespace RememberingScope

def start (s : Scope) : RememberingScope := ⟨s, []⟩

/-- The term known for a path: that of the field that shadows it, or the one remembered. -/
def known? (r : RememberingScope) (path : String) : Option Term := (r.scope.field? path).or (r.known.lookup path)

def remembered (path : String) (answer : Except Failure Term) : List (String × Term) :=
  (answer.toOption.map fun t => (path, t)).toList

/-- The term of a path: the one known, or that of the scope, which is known from now on. -/
def resolve (r : RememberingScope) (path : String) : RememberingScope × Except Failure Term :=
  match r.known? path with
  | some t => (r, .ok t)
  | none =>
    let (s, answer) := r.scope.resolve path
    (⟨s, remembered path answer ++ r.known⟩, answer)

def resolveAll (r : RememberingScope) (paths : List String) : RememberingScope :=
  paths.foldl (fun r path => (r.resolve path).1) r

def answers : RememberingScope → List String → List (String × Except Failure Term)
  | _, [] => []
  | r, path :: rest => (path, (r.resolve path).2) :: answers (r.resolve path).1 rest

/-- Every term remembered is what its path means, and the joins of the path are there. -/
def Sound (r : RememberingScope) : Prop :=
  ∀ path t, r.known.lookup path = some t → (r.scope.trace path).2 = .ok t ∧ r.scope.Has path

variable {r : RememberingScope} {path : String}

theorem sound_start (s : Scope) : (start s).Sound := fun _ _ h => by cases h

theorem resolve_of_known {t : Term} (h : r.known? path = some t) : r.resolve path = (r, .ok t) := by
  unfold RememberingScope.resolve
  rw [h]

theorem resolve_of_unknown (h : r.known? path = none) : r.scope.field? path = none ∧ r.resolve path =
    (⟨(r.scope.resolve path).1, remembered path (r.scope.resolve path).2 ++ r.known⟩, (r.scope.resolve path).2) := by
  refine ⟨(Option.or_eq_none_iff.1 h).1, ?_⟩
  unfold RememberingScope.resolve
  rw [h]

theorem Sound.later (hr : r.Sound) {s : Scope} (hs : r.scope.Grows s) : Sound ⟨s, r.known⟩ := fun path t h => by
  obtain ⟨hmeans, hhas⟩ := hr path t h
  exact ⟨by rw [hs.trace, hmeans], hhas.later hs⟩

/-- **One path**: the answer is that of the scope, as are the joins after it, and what is remembered stays sound. -/
theorem Sound.resolve (hr : r.Sound) (path : String) :
    (r.resolve path).1.Sound ∧ (r.resolve path).1.scope = (r.scope.resolve path).1 ∧
      (r.resolve path).2 = (r.scope.resolve path).2 := by
  cases hknown : r.known? path with
  | some t =>
    rw [resolve_of_known hknown]
    have hsame : r.scope.resolve path = (r.scope, .ok t) := by
      rcases Option.or_eq_some_iff.1 hknown with hfield | ⟨hfield, hlookup⟩
      · unfold Scope.resolve
        rw [hfield]
      · obtain ⟨hmeans, hhas⟩ := hr path t hlookup
        rw [Scope.resolve_of_field hfield, hmeans, Scope.addJoins_of_mem hhas]
    rw [hsame]
    exact ⟨hr, rfl, rfl⟩
  | none =>
    obtain ⟨hfield, hnew⟩ := resolve_of_unknown hknown
    have hgrows := Scope.grows_resolve r.scope path
    have hhas := Scope.has_addPath r.scope path
    rw [hnew]
    refine ⟨fun path' t h => ?_, rfl, rfl⟩
    rw [Scope.resolve_of_field hfield] at h hgrows ⊢
    rw [List.lookup_append] at h
    rcases Option.or_eq_some_iff.1 h with hnow | ⟨-, hbefore⟩
    · -- remembered just now
      cases hmeans : (r.scope.trace path).2 with
      | error e =>
        rw [hmeans] at hnow
        cases hnow
      | ok u =>
        rw [hmeans] at hnow
        have hlookup : [(path, u)].lookup path' = some t := hnow
        rw [List.lookup_cons] at hlookup
        split at hlookup
        · next hsame =>
          cases hlookup
          rw [beq_iff_eq.1 hsame]
          exact ⟨by rw [hgrows.trace, hmeans], hhas⟩
        · cases hlookup
    · exact hr.later hgrows path' t hbefore

/-- **A scope that remembers is not told apart** from one that does not, whatever paths it resolves. -/
theorem Sound.resolveAll : ∀ (paths : List String) {r : RememberingScope}, r.Sound →
    (r.resolveAll paths).Sound ∧ (r.resolveAll paths).scope = r.scope.resolveAll paths ∧
      r.answers paths = r.scope.answers paths
  | [], _, hr => ⟨hr, rfl, rfl⟩
  | path :: rest, r, hr => by
    obtain ⟨hr', hscope, hanswer⟩ := hr.resolve path
    obtain ⟨hrest, hscopes, hanswers⟩ := Sound.resolveAll rest hr'
    rw [hscope] at hscopes hanswers
    refine ⟨hrest, hscopes, ?_⟩
    rw [answers, Scope.answers, hanswer, hanswers]

/-! ## Resolving again -/

/-- A path that is known, or fails with its joins all there. -/
def Settled (r : RememberingScope) (path : String) : Prop :=
  (r.known? path).isSome = true ∨ (∃ e, (r.scope.trace path).2 = .error e) ∧ r.scope.Has path

theorem Settled.resolve (h : r.Settled path) : (r.resolve path).1 = r := by
  cases hknown : r.known? path with
  | some t => rw [resolve_of_known hknown]
  | none =>
    rcases h with hsome | ⟨⟨e, he⟩, hhas⟩
    · rw [hknown] at hsome
      cases hsome
    · obtain ⟨hfield, hnew⟩ := resolve_of_unknown hknown
      rw [hnew, Scope.resolve_of_field hfield, he, Scope.addJoins_of_mem hhas]
      rfl

theorem Settled.later (h : r.Settled path) (other : String) : (r.resolve other).1.Settled path := by
  cases hknown : r.known? other with
  | some t =>
    rw [resolve_of_known hknown]
    exact h
  | none =>
    have hgrows := Scope.grows_resolve r.scope other
    rw [(resolve_of_unknown hknown).2]
    rcases h with hsome | ⟨⟨e, he⟩, hhas⟩
    · -- neither the fields nor what is remembered gets less
      refine .inl ?_
      unfold known? at hsome ⊢
      rw [Option.isSome_or, Bool.or_eq_true] at hsome ⊢
      rw [hgrows.field?, List.lookup_append, Option.isSome_or, Bool.or_eq_true]
      exact hsome.imp_right .inr
    · exact .inr ⟨⟨e, by rw [hgrows.trace, he]⟩, hhas.later hgrows⟩

theorem settled_resolve (r : RememberingScope) (path : String) : (r.resolve path).1.Settled path := by
  cases hknown : r.known? path with
  | some t =>
    rw [resolve_of_known hknown]
    exact .inl (by rw [hknown]; rfl)
  | none =>
    obtain ⟨hfield, hnew⟩ := resolve_of_unknown hknown
    have hgrows := Scope.grows_resolve r.scope path
    rw [hnew]
    rw [Scope.resolve_of_field hfield] at hgrows ⊢
    cases hmeans : (r.scope.trace path).2 with
    | error e => exact .inr ⟨⟨e, by rw [hgrows.trace, hmeans]⟩, Scope.has_addPath r.scope path⟩
    | ok t =>
      refine .inl ?_
      unfold known?
      rw [hgrows.field?, hfield]
      simp [remembered, Except.toOption]

/-- **Every path asked for is settled.** -/
theorem settled_resolveAll : ∀ (paths : List String) (r : RememberingScope),
    (∀ path, r.Settled path → (r.resolveAll paths).Settled path) ∧ ∀ path ∈ paths, (r.resolveAll paths).Settled path
  | [], _ => ⟨fun _ h => h, fun _ h => (List.not_mem_nil h).elim⟩
  | first :: rest, r => by
    obtain ⟨hkept, hasked⟩ := settled_resolveAll rest (r.resolve first).1
    refine ⟨fun path h => hkept path (h.later first), fun path h => ?_⟩
    rcases List.mem_cons.1 h with rfl | h
    · exact hkept path (settled_resolve r path)
    · exact hasked path h

end RememberingScope
end PageQuery
