import PageQuery.Proofs.JsonFilters
/-!
# Criteria that can be made

A criterion is never written down whole: it is null, a literal or structured, or else made by negating, listing or
converting.  The functions that do so keep two rules, that a negation is not negated and that a list is not empty, and
they reach every criterion that keeps them at every depth, which is what a made criterion carries.  So what stands behind
a negation is never one itself, and negating twice leads back to the start.
-/
namespace PageQuery
namespace Criterion

/-- The criteria that can be made, in any number of steps. -/
inductive Made : Criterion → Prop
  | null : Made .null
  | value (l : Literal) : Made (.value l)
  | numeric (test : NumericTest) : Made (.numeric test)
  | enumerated (candidates : List Literal) : Made (.enumerated candidates)
  | boolean (b : Bool) : Made (.boolean b)
  | textMatch (m : TextMatch) : Made (.textMatch m)
  | not {c d : Criterion} (hc : Made c) (h : c.not = .ok d) : Made d
  | negate {c : Criterion} (hc : Made c) : Made c.negate
  | anyOf {cs : List Criterion} {d : Criterion} (hcs : ∀ c ∈ cs, Made c) (h : anyOf cs = .ok d) : Made d
  | ofJson {j : Json} {d : Criterion} (h : ofJson j = .ok d) : Made d

/-- At no depth is a negation negated or a list empty. -/
def Regular (c : Criterion) : Prop :=
  ∀ p : Criterion, p.Occurs c → (∀ inner, p ≠ .negation (.negation inner)) ∧ p ≠ .alternatives []

section
variable {c d p : Criterion} {cs : List Criterion}

/-! ## One layer at a time -/

theorem regular_negation : (negation c).Regular ↔ (∀ inner, c ≠ .negation inner) ∧ c.Regular := by
  constructor
  · exact fun h => ⟨fun inner hc => (h _ .self).1 inner (congrArg negation hc), fun p hp => h p (.inner hp)⟩
  · rintro ⟨hplain, hc⟩ p hp
    cases hp with
    | self => exact ⟨fun inner h => hplain inner (negation.inj h), by simp⟩
    | inner hp => exact hc p hp

theorem regular_alternatives : (alternatives cs).Regular ↔ cs ≠ [] ∧ ∀ c ∈ cs, c.Regular := by
  constructor
  · exact fun h => ⟨fun hnil => (h _ .self).2 (congrArg alternatives hnil), fun c hc p hp => h p (.item hc hp)⟩
  · rintro ⟨hne, hcs⟩ p hp
    cases hp with
    | self => exact ⟨by simp, fun h => hne (alternatives.inj h)⟩
    | item hc hp => exact hcs _ hc p hp

theorem regular_of_single (hsingle : ∀ p, Occurs p c → p = c) (hplain : ∀ inner, c ≠ .negation inner)
    (hlist : c ≠ .alternatives []) : c.Regular := fun p hp => by
  rw [hsingle p hp]
  exact ⟨fun inner => hplain _, hlist⟩

theorem not_of_plain (hplain : ∀ inner, c ≠ .negation inner) : c.not = .ok c.negate := by
  cases c with
  | negation inner => exact absurd rfl (hplain inner)
  | null | value | alternatives | numeric | enumerated | boolean | textMatch => rfl

theorem negate_of_plain (hplain : ∀ inner, c ≠ .negation inner) : c.negate = .negation c := by
  cases c with
  | negation inner => exact absurd rfl (hplain inner)
  | null | value | alternatives | numeric | enumerated | boolean | textMatch => rfl

theorem isNegation_eq_false : c.isNegation = false ↔ ∀ inner, c ≠ .negation inner := by
  cases c <;> simp [isNegation]

-- by recursion on the criterion and the lists inside it
mutual

theorem isRegular_iff : ∀ {c : Criterion}, c.isRegular = true ↔ c.Regular
  | .negation c => by
    rw [isRegular, Bool.and_eq_true, Bool.not_eq_true', isNegation_eq_false, isRegular_iff, regular_negation]
  | .alternatives cs => by
    rw [isRegular, Bool.and_eq_true, areRegular_iff, regular_alternatives]
    simp
  | .null | .value _ | .numeric _ | .enumerated _ | .boolean _ | .textMatch _ =>
    iff_of_true rfl (regular_of_single (fun p hp => by cases hp; rfl) (by simp) (by simp))

theorem areRegular_iff : ∀ {cs : List Criterion}, areRegular cs = true ↔ ∀ c ∈ cs, c.Regular
  | [] => by simp [areRegular]
  | c :: cs => by rw [areRegular, Bool.and_eq_true, isRegular_iff, areRegular_iff, List.forall_mem_cons]

end

/-! ## What the makers keep -/

theorem Regular.negate (h : c.Regular) : c.negate.Regular := isRegular_iff.1 (isRegular_negate (isRegular_iff.2 h))

theorem Regular.negate_negate (h : c.Regular) : c.negate.negate = c := by
  cases c with
  | negation inner => exact negate_of_plain (regular_negation.1 h).1
  | null | value | alternatives | numeric | enumerated | boolean | textMatch => exact negate_negate_of_plain (by simp)

theorem Made.regular (h : c.Made) : c.Regular := by
  induction h with
  | null | value | numeric | enumerated | boolean | textMatch => exact isRegular_iff.1 rfl
  | not _ h ih => exact isRegular_iff.1 (isRegular_not (isRegular_iff.2 ih) h)
  | negate _ ih => exact ih.negate
  | anyOf _ h ih => exact isRegular_iff.1 (isRegular_anyOf (areRegular_iff.2 ih) h)
  | ofJson h => exact isRegular_iff.1 (isRegular_ofJson h)

end

/-! ## What they reach -/

-- by recursion on the criterion and the lists inside it
mutual

theorem Regular.made : ∀ {c : Criterion}, c.Regular → c.Made
  | .null, _ => .null
  | .value l, _ => .value l
  | .numeric test, _ => .numeric test
  | .enumerated candidates, _ => .enumerated candidates
  | .boolean b, _ => .boolean b
  | .textMatch m, _ => .textMatch m
  | .negation c, h => by
    obtain ⟨hplain, hc⟩ := regular_negation.1 h
    rw [← negate_of_plain hplain]
    exact .negate hc.made
  | .alternatives cs, h => by
    obtain ⟨hne, hcs⟩ := regular_alternatives.1 h
    obtain ⟨c, rest, rfl⟩ := List.exists_cons_of_ne_nil hne
    exact .anyOf (made_of_regular hcs) rfl

theorem made_of_regular : ∀ {cs : List Criterion}, (∀ c ∈ cs, c.Regular) → ∀ c ∈ cs, c.Made
  | [], _ => fun _ hc => absurd hc List.not_mem_nil
  | c :: cs, h => by
    obtain ⟨hc, hcs⟩ := List.forall_mem_cons.1 h
    exact List.forall_mem_cons.2 ⟨hc.made, made_of_regular hcs⟩

end

/-- **What can be made is what keeps the rules.** -/
theorem made_iff_regular {c : Criterion} : c.Made ↔ c.Regular := ⟨Made.regular, Regular.made⟩

theorem made_iff_exists {c : Criterion} : c.Made ↔ ∃ m : MadeCriterion, m.criterion = c := by
  rw [made_iff_regular, ← isRegular_iff]
  constructor
  · exact fun h => ⟨⟨c, h⟩, rfl⟩
  · rintro ⟨m, rfl⟩
    exact m.regular

theorem Made.of_occurs {p c : Criterion} (hp : p.Occurs c) : c.Made → p.Made := by
  simp only [made_iff_regular]
  induction hp with
  | self => exact id
  | inner _ ih => exact fun h => ih (regular_negation.1 h).2
  | item hc _ ih => exact fun h => ih ((regular_alternatives.1 h).2 _ hc)

end Criterion

/-- **The rules of criteria** hold of all that can be made, at every depth.  So negation is its own inverse there, and
the negation that may fail does so on negations alone and agrees with the other one elsewhere. -/
theorem made_criteria_keep_rules {c : Criterion} (h : c.Made) :
    (∀ p : Criterion, p.Occurs c → p.Made ∧ (∀ inner, p ≠ .negation (.negation inner)) ∧ p ≠ .alternatives []) ∧
      c.negate.Made ∧ c.negate.negate = c ∧
      (∀ f, c.not = .error f ↔ f = .doubleNegation ∧ ∃ inner, c = .negation inner) ∧
      ((∀ inner, c ≠ .negation inner) → c.not = .ok c.negate) := by
  refine ⟨fun p hp => ⟨h.of_occurs hp, h.regular p hp⟩, h.negate, h.regular.negate_negate, fun f => ?_,
    Criterion.not_of_plain⟩
  constructor
  · intro hf
    by_cases hsign : ∃ inner, c = .negation inner
    · obtain ⟨inner, rfl⟩ := hsign
      cases hf
      exact ⟨rfl, inner, rfl⟩
    · rw [Criterion.not_of_plain (not_exists.1 hsign)] at hf
      cases hf
  · rintro ⟨rfl, inner, rfl⟩
    rfl

namespace Sample

def nobodyNamed : Criterion := .negation (.alternatives [.value (.text "Ada"), .negation .null])

end Sample

open Sample in
/-- A negated list, one of whose items was negated before, keeps the rules and is not negated again. -/
theorem nobody_named_keeps_rules :
    nobodyNamed.Made ∧
      (∀ p : Criterion, p.Occurs nobodyNamed →
        p.Made ∧ (∀ inner, p ≠ .negation (.negation inner)) ∧ p ≠ .alternatives []) ∧
      nobodyNamed.negate.negate = nobodyNamed ∧ nobodyNamed.not = .error .doubleNegation := by
  have hitems : ∀ c ∈ [Criterion.value (.text "Ada"), Criterion.null.negate], c.Made :=
    List.forall_mem_cons.2 ⟨.value _, List.forall_mem_singleton.2 (.negate .null)⟩
  have hmade : nobodyNamed.Made := .not (.anyOf hitems rfl) rfl
  obtain ⟨hinside, -, htwice, hfails, -⟩ := made_criteria_keep_rules hmade
  exact ⟨hmade, hinside, htwice, (hfails _).2 ⟨rfl, _, rfl⟩⟩

-- what cannot be made would lose its sign
example : (Criterion.negation (.negation .null)).negate.negate = .null := rfl

end PageQuery
