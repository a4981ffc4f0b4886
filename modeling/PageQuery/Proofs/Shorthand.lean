import PageQuery.Proofs.Listed
import PageQuery.Proofs.TypedOperands
/-!
# A literal alone and a literal in a list

A literal alone is read by the parser that the declared type of its field calls for, and a literal of a kind that the
type has no shorthand for is not read at all.  A literal in a list on a collection goes to the parser of the element
type, whatever its kind.  Both accept the same literals: the kinds without a shorthand are those that the parser of
elements refuses too.  And both read the same value, unless the type is text, where a literal alone is a match without
regard to case.
-/
namespace PageQuery

/-- A comparison with the value that was read, which alone is bound; or nothing bound, if none was read. -/
inductive Binding.Compares (e : Expr) : Binding Expr → Except CriterionFault Value → Prop
  | read (v : Value) : Compares e ⟨[v], .ok (.compare .eq e (.value v))⟩ (.ok v)
  | refused (fault fault' : CriterionFault) : Compares e ⟨[], .error fault⟩ (.error fault')

/-! ## One shorthand for each type -/

theorem NumericTest.equal_compares (l : Literal) (e : Expr) (t : ValueType) :
    ((NumericTest.equal l).build e t).Compares e (l.toNumber t) := by
  simp only [NumericTest.build]
  cases l.toNumber t with
  | error fault => exact .refused fault fault
  | ok v => exact .read v

theorem buildTruth_compares (l : Literal) (e : Expr) :
    (Binding.ofExcept l.toTruth >>= fun b => buildTruth b e .boolean).Compares e (l.toElement .boolean) := by
  unfold Literal.toElement
  cases l.toTruth with
  | error fault => exact .refused fault fault
  | ok b => exact .read (.boolean b)

theorem buildVariants_compares (l : Literal) (e : Expr) (enum : EnumType) :
    (buildVariants [l] e (.enumerated enum)).Compares e (l.toElement (.enumerated enum)) := by
  simp only [buildVariants, variantsOf, Literal.toElement]
  cases l.toVariant enum with
  | error fault => exact .refused fault fault
  | ok name => exact .read (.text name)

/-- **A literal alone** is compared with the value that the same literal is as an element, but for texts as text. -/
theorem buildLiteral_compares {t : ValueType} {l : Literal} (h : ¬(t = .text ∧ ∃ text, l = .text text)) (e : Expr) :
    (buildLiteral l e t).Compares e (l.toElement t) := by
  cases t with
  | text =>
    cases l with
    | text text => exact absurd ⟨rfl, text, rfl⟩ h
    | integer | float | boolean => exact .refused _ _
  | integer =>
    cases l with
    | integer | float | text => exact NumericTest.equal_compares _ e .integer
    | boolean b => exact .refused _ _
  | float =>
    cases l with
    | integer | float | text => exact NumericTest.equal_compares _ e .float
    | boolean b => exact .refused _ _
  | boolean =>
    cases l with
    | integer | text | boolean => exact buildTruth_compares _ e
    | float x => exact .refused _ _
  | enumerated enum =>
    cases l with
    | integer | text => exact buildVariants_compares _ e enum
    | float | boolean => exact .refused _ _
  | reference entity => cases l <;> exact .refused _ _

theorem TextMatch.build_text (m : TextMatch) (e : Expr) :
    ∃ x, m.build e .text = ⟨[.text m.operand], .ok x⟩ := by
  unfold TextMatch.build TextMatch.operand
  cases m.like? with
  | none => exact ⟨_, rfl⟩
  | some pattern => exact ⟨_, rfl⟩

/-! ## Both compiled -/

section
variable {s s₁ : Scope} {field : String} {t : Term} (htarget : s.filterTarget field = (s₁, .ok t))
  (hone : t.isCollection = false) (l : Literal) (ps : List Parameter)
include htarget hone

theorem compile_literal_ok {vs : List Value} {x : Expr} (hb : buildLiteral l t.expr t.type = ⟨vs, .ok x⟩) :
    (compile s field (.value l) ps).parameters = bindOperands ps field vs ∧
      ∃ p, (compile s field (.value l) ps).outcome = .ok p ∧ p.expr = x := by
  refine compile_expr_ok (fun _ h => by cases h) htarget ps ?_ hb
  rw [Criterion.build, if_neg (by simp [hone])]
  rfl

theorem compile_literal_error {fault : CriterionFault} (hb : buildLiteral l t.expr t.type = ⟨[], .error fault⟩) :
    (compile s field (.value l) ps).parameters = ps ∧
      (compile s field (.value l) ps).outcome = .error (.criterion field fault) := by
  refine compile_expr_fault (fun _ h => by cases h) htarget ps ?_ hb
  rw [Criterion.build, if_neg (by simp [hone])]
  rfl

end

section
variable {s s₁ : Scope} {list : String} {u : Term} (htarget : s.filterTarget list = (s₁, .ok u))
  (hmany : u.isCollection = true) {l : Literal} (ps : List Parameter)
include htarget hmany

theorem compile_single_ok {v : Value} (hv : l.toElement u.type = .ok v) :
    (compile s list (.alternatives [.value l]) ps).parameters = bindOperands ps list [v] ∧
      ∃ p, (compile s list (.alternatives [.value l]) ps).outcome = .ok p ∧ p.expr = .inValues u.expr [v] := by
  have helements : elementsOf u.type [.value l] = .ok [v] := elementsOf_ok_iff.2 (.cons ⟨l, rfl, hv⟩ .nil)
  obtain ⟨hparameters, p, hp, -, -, hexpr, -⟩ := compile_list_ok htarget hmany ps helements
  exact ⟨hparameters, p, hp, hexpr⟩

theorem compile_single_error {fault : CriterionFault} (hfault : l.toElement u.type = .error fault) :
    (compile s list (.alternatives [.value l]) ps).parameters = ps ∧
      (compile s list (.alternatives [.value l]) ps).outcome = .error (.criterion list fault) := by
  have helements : elementsOf u.type [.value l] = .error fault := by
    unfold elementsOf
    rw [hfault]
    rfl
  exact compile_list_error htarget hmany ps helements

end

/-- **A literal is accepted alone just if it is accepted in a list.**  Whatever the declared type, a literal on a field
of that type compiles if and only if the list of it alone compiles on a collection of that type.  Unless the type is
text, both then bind the one value that it spells: the field is compared with it, and the collection is to hold it.  A
text alone is bound in lower case, as an equality or as the pattern of a match, and bound in a list as it is.  Refused,
a literal binds nothing in either way, and each refusal names its field. -/
theorem literal_alone_iff_listed {s s₁ s' s₂ : Scope} {field list : String} {t u : Term}
    (hfield : s.filterTarget field = (s₁, .ok t)) (hone : t.isCollection = false)
    (hlist : s'.filterTarget list = (s₂, .ok u)) (hmany : u.isCollection = true) (htype : u.type = t.type)
    (l : Literal) (ps ps' : List Parameter) :
    ((compile s field (.value l) ps).outcome.isOk = true ↔
        (compile s' list (.alternatives [.value l]) ps').outcome.isOk = true) ∧
      (∀ p q, (compile s field (.value l) ps).outcome = .ok p →
        (compile s' list (.alternatives [.value l]) ps').outcome = .ok q → t.type ≠ .text →
        ∃ v, l.toElement t.type = .ok v ∧
          (compile s field (.value l) ps).parameters = bindOperands ps field [v] ∧
          p.expr = .compare .eq t.expr (.value v) ∧
          (compile s' list (.alternatives [.value l]) ps').parameters = bindOperands ps' list [v] ∧
          q.expr = .inValues u.expr [v]) ∧
      (∀ text, t.type = .text → l = .text text →
        (compile s field (.value l) ps).parameters = bindOperands ps field [.text (TextMatch.mk text .exact).operand] ∧
          (compile s' list (.alternatives [.value l]) ps').parameters = bindOperands ps' list [.text text]) ∧
      ∀ e, (compile s field (.value l) ps).outcome = .error e →
        (compile s field (.value l) ps).parameters = ps ∧
          (compile s' list (.alternatives [.value l]) ps').parameters = ps' ∧
          ∃ fault fault', e = .criterion field fault ∧
            (compile s' list (.alternatives [.value l]) ps').outcome = .error (.criterion list fault') := by
  by_cases htext : t.type = .text ∧ ∃ text, l = .text text
  · obtain ⟨htext, text, rfl⟩ := htext
    obtain ⟨x, hx⟩ := TextMatch.build_text ⟨text, .exact⟩ t.expr
    have hb : buildLiteral (.text text) t.expr t.type = ⟨[.text (TextMatch.mk text .exact).operand], .ok x⟩ := by
      rw [htext]
      exact hx
    have hv : (Literal.text text).toElement u.type = .ok (.text text) := by
      rw [htype, htext]
      rfl
    obtain ⟨hbound, p, hp, -⟩ := compile_literal_ok hfield hone _ ps hb
    obtain ⟨hbound', q, hq, -⟩ := compile_single_ok hlist hmany ps' hv
    refine ⟨?_, fun _ _ _ _ hne => absurd htext hne, fun _ _ hl => ?_, fun e he => ?_⟩
    · rw [hp, hq]
      exact iff_of_true rfl rfl
    · cases hl
      exact ⟨hbound, hbound'⟩
    · rw [hp] at he
      cases he
  · have hcompares := buildLiteral_compares htext t.expr
    generalize hb : buildLiteral l t.expr t.type = x at hcompares
    generalize hv : l.toElement t.type = r at hcompares
    cases hcompares with
    | read v =>
      obtain ⟨hbound, p, hp, hexpr⟩ := compile_literal_ok hfield hone l ps hb
      obtain ⟨hbound', q, hq, hexpr'⟩ := compile_single_ok hlist hmany ps' (htype ▸ hv)
      refine ⟨?_, fun p' q' hp' hq' _ => ?_, fun text ht hl => absurd ⟨ht, text, hl⟩ htext, fun e he => ?_⟩
      · rw [hp, hq]
        exact iff_of_true rfl rfl
      · rw [hp] at hp'
        rw [hq] at hq'
        cases hp'
        cases hq'
        exact ⟨v, rfl, hbound, hexpr, hbound', hexpr'⟩
      · rw [hp] at he
        cases he
    | refused fault fault' =>
      obtain ⟨hbound, hfault⟩ := compile_literal_error hfield hone l ps hb
      obtain ⟨hbound', hfault'⟩ := compile_single_error hlist hmany ps' (htype ▸ hv)
      refine ⟨?_, fun p q hp => ?_, fun text ht hl => absurd ⟨ht, text, hl⟩ htext, fun e he => ?_⟩
      · rw [hfault, hfault']
        exact iff_of_false Bool.false_ne_true Bool.false_ne_true
      · rw [hfault] at hp
        cases hp
      · rw [hfault] at he
        cases he
        exact ⟨hbound, hbound', fault, fault', rfl, hfault'⟩

namespace Sample

def grades : EnumType := ⟨"grade", ["low", "medium", "high"]⟩

def review : Entity :=
  .ofDeclarations "review" "reviews"
    [.scalar "grade" (.enumerated grades), .collection "votes" "review_votes" "review_id" "grade" (.enumerated grades)]
def reviewScope : Scope := .new (.ofList [review]) review dataLabel

end Sample

open Sample in
/-- A grade between blanks is the same variant on the review and among the votes, and a truth value is none. -/
theorem grade_alone_and_listed :
    (∃ p q, (compile reviewScope "grade" (.value (.text " Medium ")) []).outcome = .ok p ∧
      (compile reviewScope "votes" (.alternatives [.value (.text " Medium ")]) []).outcome = .ok q ∧
      p.expr.operands = [.text "medium"] ∧ q.expr.operands = [.text "medium"]) ∧
    (compile reviewScope "votes" (.alternatives [.value (.boolean true)]) []).outcome.isOk = false := by
  rcases hfield : reviewScope.filterTarget "grade" with ⟨s₁, o⟩
  rcases hlist : reviewScope.filterTarget "votes" with ⟨s₂, o'⟩
  obtain ⟨t, ht, hone, htype⟩ := exists_ok (P := fun t => t.isCollection = false ∧ t.type = .enumerated grades)
    (x := (reviewScope.filterTarget "grade").2) (by decide +kernel)
  obtain ⟨u, hu, hmany, htype'⟩ := exists_ok (P := fun u => u.isCollection = true ∧ u.type = .enumerated grades)
    (x := (reviewScope.filterTarget "votes").2) (by decide +kernel)
  rw [hfield] at ht
  rw [hlist] at hu
  cases ht
  cases hu
  have hagree := literal_alone_iff_listed hfield hone hlist hmany (htype'.trans htype.symm)
  constructor
  · obtain ⟨p, hp, -⟩ := exists_ok (P := fun _ : Predicate => True)
      (x := (compile reviewScope "grade" (.value (.text " Medium ")) []).outcome) (by decide +kernel)
    obtain ⟨hiff, hvalue, -⟩ := hagree (.text " Medium ") [] []
    obtain ⟨q, hq⟩ := exists_ok_of_isOk (hiff.1 (by rw [hp]; rfl))
    obtain ⟨v, hv, -, hexpr, -, hexpr'⟩ := hvalue p q hp hq (by rw [htype]; exact fun h => by cases h)
    have hmedium : v = .text "medium" := by
      rw [htype] at hv
      exact Except.ok.inj (hv.symm.trans (by decide +kernel))
    refine ⟨p, q, hp, hq, ?_, ?_⟩
    · rw [hexpr, hmedium, Expr.operands]
    · rw [hexpr', hmedium, Expr.operands]
  · obtain ⟨hiff, -⟩ := hagree (.boolean true) [] []
    exact Bool.eq_false_iff.2 (hiff.not.1 (by decide +kernel))

end PageQuery
