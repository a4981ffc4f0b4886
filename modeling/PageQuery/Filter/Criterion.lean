import PageQuery.Failure
import PageQuery.Json
/-!
# Criteria

The value half of a filter.  Plain literals, null, negation and alternatives combine freely up to
two rules, which a criterion that was made carries with it: a negation is never negated again, and a
list is never empty.  The structured criteria say how a literal is to be read: as a number, as a
variant of an enumeration, as a truth value, or as text compared without regard to case.
-/
namespace PageQuery

inductive MatchMode where
  | exact
  | startsWith
  | endsWith
  | contains
  deriving DecidableEq, Repr

def MatchMode.name : MatchMode → String
  | .exact => "Exact"
  | .startsWith => "StartsWith"
  | .endsWith => "EndsWith"
  | .contains => "Contains"

structure TextMatch where
  pattern : String
  mode : MatchMode
  deriving DecidableEq, Repr

inductive NumericTest where
  | equal (l : Literal)
  | below (l : Literal)
  | above (l : Literal)
  | between (low high : Literal)
  deriving DecidableEq, Repr

inductive Criterion where
  | null
  | value (l : Literal)
  | negation (inner : Criterion)
  | alternatives (items : List Criterion)
  | numeric (test : NumericTest)
  | enumerated (candidates : List Literal)
  | boolean (b : Bool)
  | textMatch (m : TextMatch)
  deriving Repr

/-! ## How criteria stand in messages -/

def commaSeparated : List String → String
  | [] => ""
  | [s] => s
  | s :: rest => s ++ ", " ++ commaSeparated rest

def NumericTest.describe : NumericTest → String
  | .equal l => "Eq(" ++ l.detail ++ ")"
  | .below l => "Lt(" ++ l.detail ++ ")"
  | .above l => "Gt(" ++ l.detail ++ ")"
  | .between low high => "Between(" ++ low.detail ++ ", " ++ high.detail ++ ")"

def TextMatch.describe (m : TextMatch) : String :=
  "IgnoreCase \x7b pattern: " ++ quoted m.pattern ++ ", mode: " ++ m.mode.name ++ " \x7d"

namespace Criterion

def kind : Criterion → String
  | .null => "null"
  | .value l => l.kind
  | .negation _ => "not"
  | .alternatives _ => "list"
  | .numeric _ => "numeric"
  | .enumerated _ => "enumerated"
  | .boolean _ => "bool"
  | .textMatch _ => "ignore_case"

mutual

def describe : Criterion → String
  | .null => "null"
  | .value l => l.describe
  | .negation inner => "not(" ++ inner.describe ++ ")"
  | .alternatives items => "[" ++ commaSeparated (describeAll items) ++ "]"
  | .numeric test => test.describe
  | .enumerated candidates =>
    "Enumerated \x7b candidates: [" ++ commaSeparated (candidates.map Literal.detail) ++ "] \x7d"
  | .boolean b => "Bool \x7b value: " ++ boolText b ++ " \x7d"
  | .textMatch m => m.describe

def describeAll : List Criterion → List String
  | [] => []
  | c :: cs => c.describe :: describeAll cs

end

/-! ## Making criteria -/

def not : Criterion → Except RequestFault Criterion
  | .negation _ => .error .doubleNegation
  | c => .ok (.negation c)

/-- The opposite criterion: a negation loses its sign, any other gains one. -/
def negate : Criterion → Criterion
  | .negation inner => inner
  | c => .negation c

def anyOf : List Criterion → Except RequestFault Criterion
  | [] => .error .emptyList
  | c :: cs => .ok (.alternatives (c :: cs))

/-- A plain number: a whole number when a signed word holds it, the nearest double otherwise. -/
def ofWhole (n : Int) : Except RequestFault Criterion :=
  match (Json.integer n).wordInt? with
  | some i => .ok (.value (.integer i))
  | none =>
    match (Json.integer n).double? with
    | some x => .ok (.value (.float x))
    | none => .error (.unrepresentableNumber n)

mutual

/-- Null, plain values and lists of them are criteria; objects are not. -/
def ofJson : Json → Except RequestFault Criterion
  | .null => .ok .null
  | .boolean b => .ok (.value (.boolean b))
  | .integer n => ofWhole n
  | .float x => .ok (.value (.float x))
  | .text s => .ok (.value (.text s))
  | .array items =>
    match ofJsonAll items with
    | .ok cs => anyOf cs
    | .error f => .error f
  | .object _ => .error .objectValue

def ofJsonAll : List Json → Except RequestFault (List Criterion)
  | [] => .ok []
  | j :: js =>
    match ofJson j with
    | .error f => .error f
    | .ok c =>
      match ofJsonAll js with
      | .error f => .error f
      | .ok cs => .ok (c :: cs)

end

/-! ## The rules -/

def isNegation : Criterion → Bool
  | .negation _ => true
  | _ => false

mutual

/-- At no depth is a negation negated or a list empty. -/
def isRegular : Criterion → Bool
  | .negation inner => !inner.isNegation && inner.isRegular
  | .alternatives items => !items.isEmpty && areRegular items
  | .null | .value _ | .numeric _ | .enumerated _ | .boolean _ | .textMatch _ => true

def areRegular : List Criterion → Bool
  | [] => true
  | c :: cs => c.isRegular && areRegular cs

end

theorem isRegular_negate {c : Criterion} (h : c.isRegular = true) : c.negate.isRegular = true := by
  cases c with
  | negation inner =>
    rw [isRegular, Bool.and_eq_true] at h
    exact h.2
  | null | value | alternatives | numeric | enumerated | boolean | textMatch =>
    exact (Bool.true_and _).trans h

theorem isRegular_not {c d : Criterion} (h : c.isRegular = true) (hd : c.not = .ok d) :
    d.isRegular = true := by
  have hnegate : d = c.negate := by
    cases c <;> cases hd <;> rfl
  rw [hnegate]
  exact isRegular_negate h

theorem isRegular_anyOf {cs : List Criterion} {d : Criterion} (h : areRegular cs = true)
    (hd : anyOf cs = .ok d) : d.isRegular = true := by
  cases cs with
  | nil => cases hd
  | cons c cs =>
    cases hd
    rw [isRegular, h]
    rfl

theorem isRegular_ofWhole {n : Int} {d : Criterion} (hd : ofWhole n = .ok d) :
    d.isRegular = true := by
  unfold ofWhole at hd
  split at hd
  · cases hd
    rfl
  · split at hd <;> cases hd
    rfl

mutual

theorem isRegular_ofJson : ∀ {j : Json} {d : Criterion}, ofJson j = .ok d → d.isRegular = true
  | .null, _, hd | .boolean _, _, hd | .float _, _, hd | .text _, _, hd => by
    cases hd
    rfl
  | .integer _, _, hd => isRegular_ofWhole hd
  | .array items, _, hd => by
    rw [ofJson] at hd
    cases hall : ofJsonAll items with
    | error f =>
      rw [hall] at hd
      cases hd
    | ok cs =>
      rw [hall] at hd
      exact isRegular_anyOf (areRegular_ofJsonAll hall) hd
  | .object _, _, hd => by cases hd

theorem areRegular_ofJsonAll : ∀ {js : List Json} {cs : List Criterion},
    ofJsonAll js = .ok cs → areRegular cs = true
  | [], _, h => by
    cases h
    rfl
  | j :: js, _, h => by
    rw [ofJsonAll] at h
    cases hfirst : ofJson j with
    | error f =>
      rw [hfirst] at h
      cases h
    | ok c =>
      rw [hfirst] at h
      cases hrest : ofJsonAll js with
      | error f =>
        rw [hrest] at h
        cases h
      | ok cs =>
        rw [hrest] at h
        cases h
        rw [areRegular, isRegular_ofJson hfirst, areRegular_ofJsonAll hrest]
        rfl

end

/-! ## Equality -/

def sameLiterals : List Literal → List Literal → Bool
  | [], [] => true
  | x :: xs, y :: ys => x.same y && sameLiterals xs ys
  | _, _ => false

end Criterion

def NumericTest.same : NumericTest → NumericTest → Bool
  | .equal a, .equal b => a.same b
  | .below a, .below b => a.same b
  | .above a, .above b => a.same b
  | .between a b, .between c d => a.same c && b.same d
  | _, _ => false

namespace Criterion

mutual

/-- Equality of criteria: the same shape over literals that are the same. -/
def same : Criterion → Criterion → Bool
  | .null, .null => true
  | .value a, .value b => a.same b
  | .negation a, .negation b => same a b
  | .alternatives as, .alternatives bs => sameAll as bs
  | .numeric a, .numeric b => a.same b
  | .enumerated as, .enumerated bs => sameLiterals as bs
  | .boolean a, .boolean b => a == b
  | .textMatch a, .textMatch b => a == b
  | _, _ => false

def sameAll : List Criterion → List Criterion → Bool
  | [], [] => true
  | a :: as, b :: bs => same a b && sameAll as bs
  | _, _ => false

end

theorem negate_negate_of_plain {c : Criterion} (h : ∀ d, c ≠ .negation d) :
    c.negate.negate = c := by
  cases c <;> first | rfl | exact absurd rfl (h _)

end Criterion

/-! ## Criteria that were made -/

/-- A criterion that keeps the rules.  Requests take no other. -/
structure MadeCriterion where
  criterion : Criterion
  regular : criterion.isRegular = true

namespace MadeCriterion

def null : MadeCriterion := ⟨.null, rfl⟩

def value (l : Literal) : MadeCriterion := ⟨.value l, rfl⟩

def numeric (test : NumericTest) : MadeCriterion := ⟨.numeric test, rfl⟩

def enumerated (candidates : List Literal) : MadeCriterion := ⟨.enumerated candidates, rfl⟩

def boolean (b : Bool) : MadeCriterion := ⟨.boolean b, rfl⟩

def textMatch (m : TextMatch) : MadeCriterion := ⟨.textMatch m, rfl⟩

def certified : ∀ x : Except RequestFault Criterion,
    (∀ c, x = .ok c → c.isRegular = true) → Except RequestFault MadeCriterion
  | .ok c, h => .ok ⟨c, h c rfl⟩
  | .error f, _ => .error f

def not (c : MadeCriterion) : Except RequestFault MadeCriterion :=
  certified c.criterion.not fun _ => Criterion.isRegular_not c.regular

def negate (c : MadeCriterion) : MadeCriterion :=
  ⟨c.criterion.negate, Criterion.isRegular_negate c.regular⟩

theorem areRegular_map : ∀ cs : List MadeCriterion,
    Criterion.areRegular (cs.map criterion) = true
  | [] => rfl
  | c :: cs => by
    rw [List.map_cons, Criterion.areRegular, c.regular, areRegular_map cs]
    rfl

def anyOf (cs : List MadeCriterion) : Except RequestFault MadeCriterion :=
  certified (Criterion.anyOf (cs.map criterion)) fun _ =>
    Criterion.isRegular_anyOf (areRegular_map cs)

def ofJson (j : Json) : Except RequestFault MadeCriterion :=
  certified (Criterion.ofJson j) fun _ => Criterion.isRegular_ofJson

end MadeCriterion
end PageQuery
