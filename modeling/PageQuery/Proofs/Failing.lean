import PageQuery.Proofs.Paths
/-!
# How resolving fails

A path fails at the entity where its walk stands: by its own text, for want of an attribute there, or for want of the
entity that a relation leads to.  So what holds of every such failure, at every entity that walks can reach, holds of
the failure of any path, of what is measured along it, and of the steps of a recipe.
-/
namespace PageQuery

def FailsBy {α : Type} (P : Failure → Prop) (x : Except Failure α) : Prop := ∀ e, x = .error e → P e

section
variable {α β : Type} {P : Failure → Prop}

theorem failsBy_ok (a : α) : FailsBy P (.ok a) := fun _ h => by cases h

theorem failsBy_error {e : Failure} (h : P e) : FailsBy P (.error e : Except Failure α) := fun _ h' => by
  cases h'
  exact h

theorem FailsBy.bind {x : Except Failure α} {k : α → Except Failure β} (hx : FailsBy P x)
    (hk : ∀ a, x = .ok a → FailsBy P (k a)) : FailsBy P (x >>= k) := by
  cases x with
  | error e => exact failsBy_error (hx e rfl)
  | ok a => exact hk a rfl

end

theorem Catalog.failsBy_require {P : Failure → Prop} {name : String} (c : Catalog) (h : P (.unknownEntity name)) :
    FailsBy P (c.require name) := by
  unfold Catalog.require
  split
  · exact failsBy_ok _
  · exact failsBy_error h

/-- The entities that walks reach, and what every failure met at one of them is like. -/
structure Catalog.Leads (c : Catalog) (reached : Entity → Prop) (P : Failure → Prop) : Prop where
  invalid : ∀ text fault, P (.invalidPath text fault)
  unknown : ∀ entity name, P (.unknownAttribute entity name)
  target : ∀ e, reached e → ∀ a ∈ e.attributes, ∀ name ∈ targetOf a.storage, FailsBy P (c.require name)
  stays : ∀ name e, c.require name = .ok e → reached e

/-! ## Paths -/

namespace Catalog.Leads
variable {c : Catalog} {reached : Entity → Prop} {P : Failure → Prop}

theorem failsBy_parse (h : c.Leads reached P) (path : String) : FailsBy P (FieldPath.parse path) := by
  unfold FieldPath.parse
  simp only
  split
  · exact failsBy_error (h.invalid _ _)
  · exact failsBy_ok _

theorem failsBy_parseMarker (h : c.Leads reached P) (path segment : String) : FailsBy P (parseMarker path segment) := by
  have hmarked : ∀ (p : Prop) [Decidable p] (x : String × Marker),
      FailsBy P (if p then .error (.invalidPath path .malformedMarker) else .ok x) := fun p _ x => by
    split
    · exact failsBy_error (h.invalid _ _)
    · exact failsBy_ok x
  unfold parseMarker
  simp only
  split <;> exact hmarked _ _

theorem failsBy_lookup (h : c.Leads reached P) (e : Entity) (name : String) : FailsBy P (e.lookup name) := by
  unfold Entity.lookup
  split
  · exact failsBy_ok _
  · exact failsBy_error (h.unknown _ _)

end Catalog.Leads

namespace Scope
variable {s : Scope} {reached : Entity → Prop} {P : Failure → Prop}

theorem failsBy_step (h : s.catalog.Leads reached P) (path : String) {p : Position} (hp : reached p.entity)
    (segment : String) : FailsBy P (s.step path p segment) := by
  unfold step
  split
  · exact failsBy_error (h.invalid _ _)
  · refine (h.failsBy_lookup p.entity segment).bind fun a ha => ?_
    have htarget := h.target p.entity hp a (Entity.lookup_ok ha).1
    obtain ⟨name, type, storage⟩ := a
    cases storage with
    | toOne target key | toMany target column => exact (htarget target rfl).bind fun e _ => failsBy_ok _
    | column c | collection table key value => exact failsBy_error (h.invalid _ _)

theorem failsBy_walk (h : s.catalog.Leads reached P) (path : String) : ∀ (segments : List String) {p : Position},
    reached p.entity → FailsBy P (s.walk path p segments).2 ∧
      ∀ q, (s.walk path p segments).2 = .ok q → reached q.entity
  | [], p, hp => ⟨failsBy_ok p, fun q hq => by cases hq; exact hp⟩
  | segment :: rest, p, hp => by
    have hstep := failsBy_step h path hp segment
    simp only [walk]
    cases hs : s.step path p segment with
    | error e => exact ⟨failsBy_error (hstep e hs), fun q hq => by cases hq⟩
    | ok jq =>
      obtain ⟨j, q⟩ := jq
      obtain ⟨a, target, e, -, he, rfl, -⟩ := step_cases hs
      exact failsBy_walk h path rest (h.stays target e he)

theorem failsBy_leaf (h : s.catalog.Leads reached P) (path : String) {p : Position} (hp : reached p.entity)
    (segment : String) : FailsBy P (s.leaf path p segment) := by
  unfold leaf
  refine (h.failsBy_parseMarker path segment).bind fun nm _ => ?_
  obtain ⟨name, marker⟩ := nm
  refine (h.failsBy_lookup p.entity name).bind fun a ha => ?_
  have htarget := h.target p.entity hp a (Entity.lookup_ok ha).1
  obtain ⟨called, type, storage⟩ := a
  cases storage with
  | column c => cases marker <;> first | exact failsBy_ok _ | exact failsBy_error (h.invalid _ _)
  | toOne target key =>
    cases marker with
    | plain => exact (htarget target rfl).bind fun e _ => failsBy_ok _
    | shared | membership => exact failsBy_error (h.invalid _ _)
  | toMany target column => exact (htarget target rfl).bind fun e _ => failsBy_ok _
  | collection table key value => exact failsBy_ok _

/-- **How a path fails** is said by the entities that its walk reaches from the root. -/
theorem failsBy_trace (h : s.catalog.Leads reached P) (hroot : reached s.root) (path : String) :
    FailsBy P (s.trace path).2 := by
  have hparse := h.failsBy_parse path
  unfold trace
  cases hp : FieldPath.parse path with
  | error e => exact failsBy_error (hparse e hp)
  | ok segments =>
    obtain ⟨hwalk, hend⟩ := failsBy_walk h path segments.parents (p := s.start) hroot
    simp only
    rcases hw : s.walk path s.start segments.parents with ⟨js, e | p⟩
    · rw [hw] at hwalk
      exact failsBy_error (hwalk e rfl)
    · have hleaf := failsBy_leaf h path (hend p (congrArg Prod.snd hw)) segments.last
      cases hl : s.leaf path p segments.last with
      | error e => simpa only [hl] using failsBy_error (hleaf e hl)
      | ok jt => simpa only [hl] using failsBy_ok jt.2

theorem failsBy_terminal (h : s.catalog.Leads reached P) (hroot : reached s.root) (path : String) :
    FailsBy P (s.terminal path) := by
  unfold terminal
  refine (h.failsBy_parse path).bind fun segments _ => ?_
  refine (failsBy_walk h path segments.parents (p := s.start) hroot).1.bind fun p _ => ?_
  exact (h.failsBy_parseMarker path segments.last).bind fun nm _ => h.failsBy_lookup p.entity nm.1

theorem failsBy_resolve (h : s.catalog.Leads reached P) (hroot : reached s.root) (path : String) :
    FailsBy P (s.resolve path).2 := by
  unfold resolve
  split
  · exact failsBy_ok _
  · exact failsBy_trace h hroot path

theorem failsBy_resolveMarked (h : s.catalog.Leads reached P) (hroot : reached s.root) (mark : String → String)
    (path : String) : FailsBy P (s.resolveMarked mark path).2 := by
  have hterminal := failsBy_terminal h hroot path
  unfold resolveMarked
  cases s.field? path with
  | some u => exact failsBy_ok u
  | none =>
    cases ht : s.terminal path with
    | error e => exact failsBy_error (hterminal e ht)
    | ok a => exact failsBy_resolve h hroot _

theorem failsBy_measure (h : s.catalog.Leads reached P) (hroot : reached s.root) (m : Measure) (path : String) :
    FailsBy P (s.measure m path).2 := by
  have hgroup : ∀ f type, FailsBy P (s.overGroup f type path).2 := fun f type => by
    have hread := failsBy_resolveMarked h hroot sharedPath path
    unfold overGroup readTarget
    rcases hr : s.resolveMarked sharedPath path with ⟨s', e | t⟩
    · rw [hr] at hread
      exact failsBy_error (hread e rfl)
    · exact failsBy_ok _
  have hidentity : ∀ f type, FailsBy P (s.perIdentity f type path).2 := fun f type => by
    have hread := failsBy_resolveMarked (s := s.detached) h hroot sharedPath path
    unfold perIdentity readTarget
    rcases hr : s.detached.resolveMarked sharedPath path with ⟨s', e | t⟩
    · rw [hr] at hread
      exact failsBy_error (hread e rfl)
    · exact failsBy_ok _
  cases m with
  | path => exact failsBy_resolveMarked h hroot sharedPath path
  | count | min | max => exact hgroup _ _
  | sum | avg => exact hidentity _ _

end Scope

/-! ## Recipes -/

namespace RunState
variable {reached : Entity → Prop} {P : Failure → Prop}

theorem failsBy_step {st : RunState} (h : st.scope.catalog.Leads reached P) (hroot : reached st.scope.root) (x : Step) :
    ∀ e ∈ (st.step x).2, P e := by
  intro e he
  cases x with
  | measure m field path =>
    have hmeasure := Scope.failsBy_measure h hroot m path
    rcases st.read_cases m field path with ⟨s, t, -, hread⟩ | ⟨s, e', hfails, hread⟩
    · rw [step, hread] at he
      cases he
    · rw [step, hread] at he
      cases he
      exact hmeasure e (by rw [hfails])
  | attempt | identity | constant | condition => cases he

theorem failsBy_steps : ∀ (xs : List Step) (st : RunState), st.scope.catalog.Leads reached P →
    reached st.scope.root → ∀ e ∈ (st.steps xs).2, P e
  | [], _, _, _, e, he => by cases he
  | x :: xs, st, h, hroot, e, he => by
    have hstep := failsBy_step h hroot x
    have hgrows := grows_step st x
    simp only [steps] at he
    rcases hx : st.step x with ⟨st', _ | e'⟩
    · rw [hx] at he hgrows
      exact failsBy_steps xs st' (hgrows.catalog ▸ h) (hgrows.root ▸ hroot) e he
    · rw [hx] at he hstep
      cases he
      exact hstep e rfl

end RunState
end PageQuery
