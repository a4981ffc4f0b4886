import PageQuery.Proofs.ToOne
/-!
# The term that a criterion tests

Compiling finds a term for a path, builds the criterion on it and binds the operands under the path's name.  A negation
of a path that no field shadows goes its own way and ends alike: what it negates is built on the path's term in the
scope of a subquery, and then either no row there may meet it or, where the path has one value, the negation is built on
the same term outside.  So whether a criterion compiles, how it fails and what it binds are read off one term.
-/
namespace PageQuery

theorem Criterion.eq_negation {c : Criterion} (h : c.isNegation = true) : ∃ inner, c = .negation inner := by
  cases c with
  | negation inner => exact ⟨inner, rfl⟩
  | null | value | alternatives | numeric | enumerated | boolean | textMatch => cases h

theorem Criterion.build_not (t : Term) (c : Criterion) :
    (Criterion.negation c).build t = (c.build t).mapped fun b => Built.plain (.not b.expr) := by
  simp only [Criterion.build]
  generalize c.build t = x
  obtain ⟨vs, e | b⟩ := x
  · rfl
  · show (⟨vs ++ [], .ok _⟩ : Binding Built) = ⟨vs, .ok _⟩
    rw [List.append_nil]

theorem map_ok {ε α β : Type} {x : Except ε α} {g : α → β} {b : β} (h : x.map g = .ok b) : ∃ a, x = .ok a ∧ g a = b := by
  cases x with
  | error e => cases h
  | ok a => exact ⟨a, rfl, Except.ok.inj h⟩

theorem outcome_of_mapped {α β : Type} {g : α → β} {x : Binding α} {b : β} (h : (x.mapped g).outcome = .ok b) :
    ∃ a, x.outcome = .ok a := by
  obtain ⟨vs, e | a⟩ := x
  · cases h
  · exact ⟨a, rfl⟩

theorem Criterion.operands_relabel (f : String → String) (t : Term) (c : Criterion) :
    (c.build (t.relabel f)).operands = (c.build t).operands := by
  rw [Criterion.build_relabel]
  rfl

namespace Scope
variable {s : Scope} {path : String}

theorem resolveMarked_congr {s t : Scope} (hbase : s.base = t.base) (hfields : s.fields = t.fields)
    (mark : String → String) (path : String) : (s.resolveMarked mark path).2 = (t.resolveMarked mark path).2 := by
  have hfield := field?_congr hfields
  have hterminal := terminal_congr hbase path
  have htrace : ∀ target, s.trace target = t.trace target := fun target => by
    rw [← trace_base s, hbase, trace_base]
  unfold resolveMarked
  rw [hfield, hterminal]
  cases t.field? path with
  | some u => rfl
  | none =>
    cases t.terminal path with
    | error e => rfl
    | ok a =>
      simp only [resolve, hfield, htrace]
      split <;> rfl

def tested (s : Scope) (path : String) (c : Criterion) : Except Failure Term :=
  if c.isNegation && (s.field? path).isNone then (s.detached.filterTarget path).2 else (s.filterTarget path).2

theorem filterTarget_detached (s : Scope) (path : String) :
    (s.detached.filterTarget path).2 =
      (s.base.filterTarget path).2.map (Term.relabel (rebase s.label s.detached.label)) := by
  have hlabel : s.detached.label = s.label ++ "_sub" ++ toString s.subqueries := rfl
  rw [hlabel, detached_eq, filterTarget_relabel (s := s.base) (keepsBehind_rebase s.label _)]
  rfl

/-- A path with one value means the same in a scope as in one of its subqueries, but for the labels. -/
theorem filterTarget_of_detached {t : Term} (hfield : s.field? path = none)
    (h : (s.detached.filterTarget path).2 = .ok t) (hone : (s.detached.filterTarget path).1.hasToManyJoins = false) :
    ∃ u l c, (s.filterTarget path).2 = .ok u ∧ t = u.relabel (rebase s.label s.detached.label) ∧
      u.expr = Expr.col l c := by
  have hsingle : s.detached.catalog.manyAlong s.detached.root path = false := by
    by_contra hmany
    rw [Bool.not_eq_false] at hmany
    rw [filterTarget_toMany (s := s.detached) rfl rfl h hmany] at hone
    cases hone
  rw [filterTarget_detached] at h
  cases hbase : (s.base.filterTarget path).2 with
  | error e =>
    rw [hbase] at h
    cases h
  | ok u =>
    rw [hbase] at h
    cases h
    obtain ⟨a, hterminal, -, htrace⟩ := resolveMarked_ok (s := s.base) rfl hbase
    obtain ⟨hplain, -, -⟩ := trace_toOne (s := s.base) hsingle hterminal
    simp only [hplain, Bool.false_and, Bool.false_eq_true, if_false] at htrace
    rw [terminal_base] at hterminal
    rw [trace_base] at htrace
    obtain ⟨-, l, c, hexpr, -⟩ := (trace_made s path).2 u htrace
    refine ⟨u, l, c, ?_, rfl, hexpr⟩
    unfold filterTarget resolveMarked resolve
    simp only [hfield, hterminal, hplain, Bool.false_and, Bool.false_eq_true, if_false, htrace]

end Scope

/-! ## Compiling, read off the tested term -/

section
variable {s : Scope} {path : String} {c : Criterion}

theorem compileOnTerm_of_error {s' : Scope} {e : Failure} (h : s.filterTarget path = (s', .error e)) (c : Criterion)
    (ps : List Parameter) : compileOnTerm s path c ps = ⟨s', ps, .error e⟩ := by
  unfold compileOnTerm
  rw [h]

theorem compileOnTerm_of_fault {s' : Scope} {t : Term} {fault : CriterionFault} (h : s.filterTarget path = (s', .ok t))
    (hfault : (c.build t).outcome = .error fault) (ps : List Parameter) :
    (compileOnTerm s path c ps).outcome = .error (.criterion path fault) := by
  unfold compileOnTerm
  rw [h]
  simp only [hfault]

theorem parameters_compileOnTerm {t : Term} (h : (s.filterTarget path).2 = .ok t) (c : Criterion)
    (ps : List Parameter) :
    (compileOnTerm s path c ps).parameters = bindOperands ps path (c.build t).operands := by
  unfold compileOnTerm
  generalize s.filterTarget path = found at h
  obtain ⟨s', o⟩ := found
  simp only at h
  subst h
  rfl

theorem compile_direct (h : (c.isNegation && (s.field? path).isNone) = false) (ps : List Parameter) :
    compile s path c ps = compileOnTerm s path c ps := by
  cases c with
  | null | value | alternatives | numeric | enumerated | boolean | textMatch => rfl
  | negation inner =>
    have hfield : (s.field? path).isSome = true := by
      cases hf : s.field? path with
      | none =>
        rw [hf] at h
        cases h
      | some u => rfl
    unfold compile
    simp only [hfield, if_true]

theorem compile_apart {inner : Criterion} (hfield : (s.field? path).isNone = true) (ps : List Parameter) :
    compile s path (.negation inner) ps =
      match (compileOnTerm s.detached path inner ps).outcome with
      | .error f => ⟨s.opened, ps, .error f⟩
      | .ok p =>
        if (compileOnTerm s.detached path inner ps).scope.hasToManyJoins then
          ⟨s.opened, (compileOnTerm s.detached path inner ps).parameters,
            .ok ⟨path, nonexistence s (compileOnTerm s.detached path inner ps).scope p, .row, none⟩⟩
        else compileOnTerm s.opened path (.negation inner) ps := by
  have hnone : (s.field? path).isSome = false := by
    rw [Option.isNone_iff_eq_none] at hfield
    rw [hfield]
    rfl
  unfold compile
  cases hpositive : (compileOnTerm s.detached path inner ps).outcome <;>
    simp only [hnone, hpositive, Bool.false_eq_true, if_false]

theorem compile_of_tested_error {e : Failure} (h : s.tested path c = .error e) (ps : List Parameter) :
    (compile s path c ps).outcome = .error e := by
  unfold Scope.tested at h
  cases hway : c.isNegation && (s.field? path).isNone with
  | false =>
    rw [hway] at h
    rw [compile_direct hway]
    exact congrArg Compiled.outcome (compileOnTerm_of_error (Prod.ext rfl h) c ps)
  | true =>
    rw [hway] at h
    obtain ⟨hnegation, hfield⟩ := Bool.and_eq_true_iff.1 hway
    obtain ⟨inner, rfl⟩ := Criterion.eq_negation hnegation
    rw [compile_apart hfield, compileOnTerm_of_error (Prod.ext rfl h)]

theorem compile_of_fault {t : Term} {fault : CriterionFault} (h : s.tested path c = .ok t)
    (hfault : (c.build t).outcome = .error fault) (ps : List Parameter) :
    (compile s path c ps).outcome = .error (.criterion path fault) := by
  unfold Scope.tested at h
  cases hway : c.isNegation && (s.field? path).isNone with
  | false =>
    rw [hway] at h
    rw [compile_direct hway]
    exact compileOnTerm_of_fault (Prod.ext rfl h) hfault ps
  | true =>
    rw [hway] at h
    obtain ⟨hnegation, hfield⟩ := Bool.and_eq_true_iff.1 hway
    obtain ⟨inner, rfl⟩ := Criterion.eq_negation hnegation
    have hinner : (inner.build t).outcome = .error fault := by
      rw [Criterion.build_not] at hfault
      simp only [Binding.mapped] at hfault
      cases ho : (inner.build t).outcome with
      | error e =>
        rw [ho] at hfault
        cases hfault
        rfl
      | ok b =>
        rw [ho] at hfault
        cases hfault
    rw [compile_apart hfield, compileOnTerm_of_fault (Prod.ext rfl h) hinner ps]

/-- What a criterion is compiled to once it was built on the tested term: its predicate on that term, or on a column
that is the tested one under another label, or that no row of a subquery meets what is negated. -/
inductive Predicate.Of (path : String) (t : Term) : Criterion → Predicate → Prop
  | asked {c : Criterion} {u : Term} {b : Built}
      (hsame : t = u ∨ ∃ f l column, t = u.relabel f ∧ u.expr = Expr.col l column)
      (hb : (c.build u).outcome = .ok b) : Predicate.Of path t c (predicateOf path u b)
  | absent {c : Criterion} (outer inner : Scope) {b : Built} (hb : (c.build t).outcome = .ok b) :
      Predicate.Of path t (.negation c) ⟨path, nonexistence outer inner (predicateOf path t b), .row, none⟩

/-- **A criterion that can be built on the tested term compiles**, and binds what it bound there. -/
theorem compile_of_build {t : Term} {b : Built} (h : s.tested path c = .ok t) (hb : (c.build t).outcome = .ok b)
    (ps : List Parameter) :
    (compile s path c ps).parameters = bindOperands ps path (c.build t).operands ∧
      ∃ p, (compile s path c ps).outcome = .ok p ∧ Predicate.Of path t c p := by
  unfold Scope.tested at h
  cases hway : c.isNegation && (s.field? path).isNone with
  | false =>
    rw [hway] at h
    rw [compile_direct hway]
    exact ⟨parameters_compileOnTerm h c ps, _, (compileOnTerm_of_build ps (Prod.ext rfl h) hb).2,
      .asked (.inl rfl) hb⟩
  | true =>
    rw [hway] at h
    obtain ⟨hnegation, hfield⟩ := Bool.and_eq_true_iff.1 hway
    obtain ⟨inner, rfl⟩ := Criterion.eq_negation hnegation
    rw [Criterion.build_not] at hb ⊢
    simp only [Binding.mapped] at hb ⊢
    cases hinner : (inner.build t).outcome with
    | error e =>
      rw [hinner] at hb
      cases hb
    | ok b' =>
      have hpositive := compileOnTerm_of_build ps (Prod.ext rfl h) hinner
      rw [compile_apart hfield, hpositive.2, hpositive.1]
      simp only
      by_cases hmany : (s.detached.filterTarget path).1.hasToManyJoins = true
      · rw [if_pos hmany]
        exact ⟨parameters_compileOnTerm h inner ps, _, rfl, .absent _ _ hinner⟩
      · rw [if_neg hmany]
        rw [Bool.not_eq_true] at hmany
        obtain ⟨u, l, column, hu, rfl, hexpr⟩ := Scope.filterTarget_of_detached (Option.isNone_iff_eq_none.1 hfield) h hmany
        have hopened : (s.opened.filterTarget path).2 = .ok u := by
          rw [← hu]
          exact Scope.resolveMarked_congr (s := s.opened) (t := s) rfl rfl membershipPath path
        obtain ⟨b, hb⟩ : ∃ b, ((Criterion.negation inner).build u).outcome = .ok b := by
          rw [Criterion.build_relabel] at hinner
          obtain ⟨b, hb⟩ := outcome_of_mapped hinner
          exact ⟨_, build_negation hb⟩
        refine ⟨?_, _, (compileOnTerm_of_build ps (Prod.ext rfl hopened) hb).2, .asked (.inr ⟨_, l, column, rfl, hexpr⟩) hb⟩
        rw [parameters_compileOnTerm hopened, Criterion.build_not, Criterion.operands_relabel]
        rfl

end

end PageQuery
