import PageQuery.Filter.Compile
/-!
# A criterion tests its term and nothing else

Whatever a criterion builds is made of its term by comparing it with values, by lower case and by logic.  So what holds
of the term and is kept by those holds of every predicate built on it.
-/
namespace PageQuery

/-- One thing that holds of an expression, in lower case too, makes another hold of its comparisons with values. -/
structure Comparable (A P : Expr → Prop) : Prop where
  lower : ∀ e, A e → A (.call .lower e)
  compare : ∀ op e v, A e → P (.compare op e (.value v))
  between : ∀ e v w, A e → P (.between e (.value v) (.value w))
  inValues : ∀ e vs, vs ≠ [] → A e → P (.inValues e vs)
  like : ∀ e pattern, A e → P (.like e pattern)

/-- What holds of an expression makes another thing hold of whatever is built by testing it. -/
structure Testable (A P : Expr → Prop) : Prop extends Comparable A P where
  among : ∀ e vs, A e → P (.inValues e vs)
  isNull : ∀ e, A e → P (.isNull e)
  not : ∀ e, P e → P (.not e)
  or : ∀ a b, P a → P b → P (.or a b)
  inValues := fun e vs _ => among e vs

def Binding.Yields {α : Type} (P : α → Prop) (x : Binding α) : Prop := ∀ a, x.outcome = .ok a → P a

namespace Binding
variable {α β : Type}

theorem yields_pure {P : α → Prop} {a : α} (h : P a) : (Pure.pure a : Binding α).Yields P := fun b hb => by
  cases hb
  exact h

theorem yields_fault (P : α → Prop) (e : CriterionFault) : (fault e : Binding α).Yields P := fun b hb => by cases hb

theorem yields_bind {P : β → Prop} {x : Binding α} {k : α → Binding β} (h : ∀ a, (k a).Yields P) :
    (x >>= k).Yields P := by
  obtain ⟨vs, e | a⟩ := x
  · exact fun b hb => by cases hb
  · exact h a

theorem yields_map {P : α → Prop} {Q : β → Prop} {x : Binding α} {g : α → β} (hx : x.Yields P)
    (hg : ∀ a, P a → Q (g a)) : (x >>= fun a => Pure.pure (g a)).Yields Q := by
  obtain ⟨vs, e | a⟩ := x
  · exact fun b hb => by cases hb
  · exact yields_pure (hg a (hx a rfl))

theorem yields_operandList {vs : List Value} : (operandList vs).Yields fun ws => ws = vs := fun ws hws => by
  cases hws
  rfl

end Binding

section
variable {A P : Expr → Prop} (hP : Comparable A P) {e : Expr} (he : A e)
include hP he

open Binding

theorem NumericTest.build_yields (test : NumericTest) (t : ValueType) : (test.build e t).Yields P := by
  cases test with
  | equal l | below l | above l => exact yields_bind fun v => yields_pure (hP.compare _ e v he)
  | between low high => exact yields_bind fun v => yields_bind fun w => yields_pure (hP.between e v w he)

theorem buildVariants_yields (candidates : List Literal) (t : ValueType) : (buildVariants candidates e t).Yields P := by
  unfold buildVariants
  cases t with
  | enumerated enum =>
    refine yields_bind fun vs => ?_
    split
    · exact yields_fault P _
    · exact yields_bind fun v => yields_pure (hP.compare _ e v he)
    · next hsome _ => exact yields_map yields_operandList fun vs hvs => hP.inValues e vs (hvs ▸ hsome) he
  | integer | float | boolean | text | reference => exact yields_fault P _

theorem buildTruth_yields (b : Bool) (t : ValueType) : (buildTruth b e t).Yields P := by
  unfold buildTruth
  split
  · exact yields_bind fun v => yields_pure (hP.compare _ e v he)
  · exact yields_fault P _

theorem TextMatch.build_yields (m : TextMatch) (t : ValueType) : (m.build e t).Yields P := by
  unfold TextMatch.build
  split
  · split
    · exact yields_bind fun v => yields_pure (hP.compare _ _ v (hP.lower e he))
    · exact yields_bind fun _ => yields_pure (hP.like _ _ (hP.lower e he))
  · exact yields_fault P _

theorem buildLiteral_yields (l : Literal) (t : ValueType) : (buildLiteral l e t).Yields P := by
  unfold buildLiteral
  split
  all_goals with_reducible first
    | exact buildVariants_yields hP he _ _
    | exact NumericTest.build_yields hP he _ _
    | exact yields_bind fun b => buildTruth_yields hP he b _
    | exact TextMatch.build_yields hP he _ _
    | exact yields_fault P _

end

def Criterion.isComparison : Criterion → Bool
  | .null | .negation _ | .alternatives _ => false
  | .value _ | .numeric _ | .enumerated _ | .boolean _ | .textMatch _ => true

theorem Criterion.build_comparison {A P : Expr → Prop} (hP : Comparable A P) {t : Term} (ht : A t.expr)
    (hone : t.isCollection = false) {c : Criterion} (hc : c.isComparison = true) :
    (c.build t).Yields fun b => P b.expr := by
  cases c with
  | null | negation | alternatives => cases hc
  | value l =>
    simp only [Criterion.build, hone, Bool.false_eq_true, if_false]
    exact Binding.yields_map (buildLiteral_yields hP ht l t.type) fun _ he => he
  | numeric test =>
    simp only [Criterion.build, hone, Bool.false_eq_true, if_false]
    exact Binding.yields_map (NumericTest.build_yields hP ht test t.type) fun _ he => he
  | enumerated candidates =>
    simp only [Criterion.build, hone, Bool.false_eq_true, if_false]
    exact Binding.yields_map (buildVariants_yields hP ht candidates t.type) fun _ he => he
  | boolean b =>
    simp only [Criterion.build, hone, Bool.false_eq_true, if_false]
    exact Binding.yields_map (buildTruth_yields hP ht b t.type) fun _ he => he
  | textMatch m =>
    simp only [Criterion.build, hone, Bool.false_eq_true, if_false]
    exact Binding.yields_map (TextMatch.build_yields hP ht m t.type) fun _ he => he

section
variable {A P : Expr → Prop} (hP : Testable A P)
include hP

theorem buildMembership_yields {e : Expr} (he : A e) (c : Criterion) (t : ValueType) :
    (buildMembership c e t).Yields fun b => P b.expr := by
  cases c with
  | alternatives items =>
    exact Binding.yields_bind fun _ => Binding.yields_bind fun vs => Binding.yields_pure (hP.among e vs he)
  | null | value | negation | numeric | enumerated | boolean | textMatch => exact Binding.yields_fault _ _

theorem disjunction_closed {es : List Expr} (hes : ∀ e ∈ es, P e) {e : Expr} (h : Expr.disjunction es = some e) :
    P e := by
  have hfold : ∀ (es : List Expr) (a : Expr), P a → (∀ e ∈ es, P e) → P (es.foldl Expr.or a) := by
    intro es
    induction es with
    | nil => exact fun a ha _ => ha
    | cons e es ih =>
      exact fun a ha hes => ih _ (hP.or a e ha (hes e List.mem_cons_self)) fun x hx => hes x (List.mem_cons_of_mem e hx)
  cases es with
  | nil => cases h
  | cons a es =>
    cases h
    exact hfold es a (hes a List.mem_cons_self) fun x hx => hes x (List.mem_cons_of_mem a hx)

theorem Criterion.build_compared {t : Term} (ht : A t.expr) {c : Criterion} (hc : c.isComparison = true) :
    (c.build t).Yields fun b => P b.expr := by
  cases hone : t.isCollection with
  | false => exact Criterion.build_comparison hP.toComparable ht hone hc
  | true =>
    cases c with
    | null | negation | alternatives => cases hc
    | value | numeric | enumerated | boolean | textMatch =>
      simp only [Criterion.build, hone, if_true]
      exact buildMembership_yields hP ht _ _

end

mutual

/-- **A criterion tests its term and nothing else.** -/
theorem Criterion.build_yields {A P : Expr → Prop} (hP : Testable A P) {t : Term} (ht : A t.expr) :
    ∀ c : Criterion, (c.build t).Yields fun b => P b.expr
  | .negation inner => by
    simp only [Criterion.build]
    exact Binding.yields_map (Criterion.build_yields hP ht inner) fun b hb => hP.not b.expr hb
  | .null => by
    simp only [Criterion.build]
    exact Binding.yields_pure (hP.isNull t.expr ht)
  | .alternatives items => by
    have hall := Criterion.buildAll_yields hP ht items
    simp only [Criterion.build]
    split
    · exact buildMembership_yields hP ht _ _
    · unfold anyBuilt
      cases hany : Expr.disjunction (Criterion.buildAll t items).2 with
      | none => exact fun b hb => by cases hb
      | some e => exact Binding.yields_map (Binding.yields_pure (disjunction_closed hP hall hany)) fun e he => he
  | .value _ | .numeric _ | .enumerated _ | .boolean _ | .textMatch _ => Criterion.build_compared hP ht rfl

theorem Criterion.buildAll_yields {A P : Expr → Prop} (hP : Testable A P) {t : Term} (ht : A t.expr) :
    ∀ cs : List Criterion, ∀ e ∈ (Criterion.buildAll t cs).2, P e
  | [] => by simp [Criterion.buildAll]
  | c :: cs => by
    have hc := Criterion.build_yields hP ht c
    have hcs := Criterion.buildAll_yields hP ht cs
    simp only [Criterion.buildAll]
    cases hb : (c.build t).outcome with
    | error e => exact hcs
    | ok b =>
      intro e he
      rcases List.mem_cons.1 he with rfl | he
      · exact hc b hb
      · exact hcs e he

end

theorem build_negation {t : Term} {c : Criterion} {b : Built} (h : (c.build t).outcome = .ok b) :
    ((Criterion.negation c).build t).outcome = .ok (Built.plain (.not b.expr)) := by
  simp only [Criterion.build]
  generalize c.build t = x at h
  obtain ⟨vs, o⟩ := x
  simp only at h
  subst h
  rfl

/-! ## Compiled criteria -/

theorem compileOnTerm_ok {s : Scope} {field : String} {c : Criterion} {ps : List Parameter} {p : Predicate}
    (h : (compileOnTerm s field c ps).outcome = .ok p) :
    ∃ t b, s.filterTarget field = ((compileOnTerm s field c ps).scope, .ok t) ∧ (c.build t).outcome = .ok b ∧
      p = predicateOf field t b := by
  unfold compileOnTerm at h ⊢
  generalize s.filterTarget field = found at h ⊢
  obtain ⟨s', e | t⟩ := found
  · cases h
  · simp only at h ⊢
    cases hb : (c.build t).outcome with
    | error e =>
      rw [hb] at h
      cases h
    | ok b =>
      rw [hb] at h
      cases h
      exact ⟨t, b, rfl, hb, rfl⟩

theorem compileOnTerm_of_build {s s' : Scope} {field : String} {c : Criterion} (ps : List Parameter) {t : Term}
    {b : Built} (htarget : s.filterTarget field = (s', .ok t)) (hb : (c.build t).outcome = .ok b) :
    (compileOnTerm s field c ps).scope = s' ∧ (compileOnTerm s field c ps).outcome = .ok (predicateOf field t b) := by
  unfold compileOnTerm
  rw [htarget]
  simp only [hb, and_self]

section
variable {s s' : Scope} {field : String} {c : Criterion} (hplain : ∀ inner, c ≠ .negation inner)
include hplain

theorem compile_plain (s : Scope) (ps : List Parameter) : compile s field c ps = compileOnTerm s field c ps := by
  cases c with
  | negation inner => exact absurd rfl (hplain inner)
  | null | value | alternatives | numeric | enumerated | boolean | textMatch => rfl

variable {t : Term} (htarget : s.filterTarget field = (s', .ok t)) (ps : List Parameter)
include htarget

theorem compile_plain_ok {vs : List Value} {b : Built} (hb : c.build t = ⟨vs, .ok b⟩) :
    compile s field c ps = ⟨s', bindOperands ps field vs, .ok (predicateOf field t b)⟩ := by
  rw [compile_plain hplain]
  simp only [compileOnTerm, htarget, hb]

theorem compile_plain_fault {fault : CriterionFault} (hb : c.build t = ⟨[], .error fault⟩) :
    compile s field c ps = ⟨s', ps, .error (.criterion field fault)⟩ := by
  have hnone : bindOperands ps field [] = ps := List.append_nil ps
  rw [compile_plain hplain]
  simp only [compileOnTerm, htarget, hb, hnone]

variable {built : Binding Expr} (hbuild : c.build t = built.bind fun e => Binding.pure (Built.plain e))
include hbuild

theorem compile_expr_ok {vs : List Value} {x : Expr} (hb : built = ⟨vs, .ok x⟩) :
    (compile s field c ps).parameters = bindOperands ps field vs ∧
      ∃ p, (compile s field c ps).outcome = .ok p ∧ p.expr = x := by
  have hplainBuilt : c.build t = ⟨vs, .ok (Built.plain x)⟩ := by
    rw [hbuild, hb, Binding.bind_ok]
    exact congrArg (Binding.mk · _) (List.append_nil vs)
  rw [compile_plain_ok hplain htarget ps hplainBuilt]
  exact ⟨rfl, _, rfl, rfl⟩

theorem compile_expr_fault {fault : CriterionFault} (hb : built = ⟨[], .error fault⟩) :
    (compile s field c ps).parameters = ps ∧ (compile s field c ps).outcome = .error (.criterion field fault) := by
  have hfault : c.build t = ⟨[], .error fault⟩ := by
    rw [hbuild, hb, Binding.bind_error]
  rw [compile_plain_fault hplain htarget ps hfault]
  exact ⟨rfl, rfl⟩

end

end PageQuery
