import PageQuery.Filter.Criterion
import PageQuery.Proofs.Nearest
import PageQuery.Proofs.Parts
/-!
# Filters given as JSON

A JSON value without objects and without empty lists is a criterion of the same shape: null for null, literals for plain
values, alternatives for lists, in order and at every depth.  A whole number that a signed word holds stays exactly that;
every other number is the nearest double.  Any other value is refused for an object or an empty list in it, and never
for a number.
-/
namespace PageQuery

/-! ## The double nearest to a whole number -/

/-- No double is nearer to the rational, or all doubles fall short of it and the double is the infinity on its side. -/
def Binary64.NearestTo (x : Binary64) (q : ℚ) : Prop :=
  (∃ y, x.value? = some y ∧ Binary64.IsDouble y ∧ ∀ z, Binary64.IsDouble z → |y - q| ≤ |z - q|) ∨
    x = .infinite (decide (q < 0)) ∧ ∀ z, Binary64.IsDouble z → |z| < |q|

theorem Binary64.nearestTo_ofInt (n : Int) : (ofInt n).NearestTo n := by
  have hsign : (decide (n < 0)) = decide ((n : ℚ) < 0) := decide_eq_decide.2 (by rw [Int.cast_lt_zero])
  have hvalue : (ofInt n).value? = nearest? n := by
    have habs : ((n.natAbs : ℕ) : ℚ) / ((1 : ℕ) : ℚ) = |(n : ℚ)| := by
      rw [Nat.cast_one, div_one, Nat.cast_natAbs, Int.cast_abs]
    rw [ofInt, value?_ofRatio _ _ Nat.one_pos, habs, hsign, signFactor_mul_abs]
  cases hnearest : nearest? (n : ℚ) with
  | some y =>
    exact .inl ⟨y, hvalue.trans hnearest, isDouble_of_nearest? hnearest, fun z hz => nearest?_near hnearest hz⟩
  | none =>
    refine .inr ⟨?_, fun z hz => lt_of_nearest?_eq_none hnearest hz⟩
    rw [hnearest, ofInt, ofRatio_eq] at hvalue
    rw [ofInt, ofRatio_eq, ← hsign]
    split
    · rfl
    · next hfinite =>
      rw [if_neg hfinite] at hvalue
      cases hvalue

/-! ## Values inside values -/

/-- A value is the other one, or stands in it at some depth. -/
inductive Json.Occurs (x : Json) : Json → Prop
  | self : Json.Occurs x x
  | item {items : List Json} {j : Json} (hj : j ∈ items) (h : Json.Occurs x j) : Json.Occurs x (.array items)
  | member {members : List (String × Json)} {m : String × Json} (hm : m ∈ members) (h : Json.Occurs x m.2) :
    Json.Occurs x (.object members)

/-- A criterion is the other one, or stands in it at some depth. -/
inductive Criterion.Occurs (p : Criterion) : Criterion → Prop
  | self : Criterion.Occurs p p
  | inner {c : Criterion} (h : Criterion.Occurs p c) : Criterion.Occurs p (.negation c)
  | item {cs : List Criterion} {c : Criterion} (hc : c ∈ cs) (h : Criterion.Occurs p c) :
    Criterion.Occurs p (.alternatives cs)

/-- The criterion has the shape of the value, and its literals are exactly the plain values there. -/
inductive Json.Mirrors : Json → Criterion → Prop
  | null : Json.Mirrors .null .null
  | boolean (b : Bool) : Json.Mirrors (.boolean b) (.value (.boolean b))
  | text (s : String) : Json.Mirrors (.text s) (.value (.text s))
  | word {n : Int} {i : Int64} (hi : i.toInt = n) : Json.Mirrors (.integer n) (.value (.integer i))
  | beyond {n : Int} {x : Binary64} (hn : ∀ i : Int64, i.toInt ≠ n) (hx : x.NearestTo n) :
    Json.Mirrors (.integer n) (.value (.float x))
  | float (x : Binary64) : Json.Mirrors (.float x) (.value (.float x))
  | array {items : List Json} {cs : List Criterion} (hne : items ≠ []) (h : List.Forall₂ Json.Mirrors items cs) :
    Json.Mirrors (.array items) (.alternatives cs)

inductive Json.Refused (j : Json) : RequestFault → Prop
  | object {members : List (String × Json)} (h : Json.Occurs (.object members) j) : Json.Refused j .objectValue
  | empty (h : Json.Occurs (.array []) j) : Json.Refused j .emptyList

/-! ## Numbers -/

theorem Json.wordInt?_eq_some {n : Int} {i : Int64} : (Json.integer n).wordInt? = some i ↔ i.toInt = n := by
  rw [wordInt?]
  constructor
  · intro h
    obtain ⟨⟨hleast, hgreatest⟩, hword⟩ := Option.ite_none_right_eq_some.1 h
    rw [← Option.some.inj hword]
    exact Int64.toInt_ofInt_of_le (by omega) (by omega)
  · rintro rfl
    have hleast := i.le_toInt
    have hgreatest := i.toInt_lt
    rw [if_pos (by omega), Int64.ofInt_toInt]

namespace Criterion

theorem ofWhole_mirrors (n : Int) : ∃ c, ofWhole n = .ok c ∧ (Json.integer n).Mirrors c := by
  unfold ofWhole
  cases hword : (Json.integer n).wordInt? with
  | some i => exact ⟨_, rfl, .word (Json.wordInt?_eq_some.1 hword)⟩
  | none =>
    refine ⟨_, rfl, .beyond (fun i hi => ?_) (Binary64.nearestTo_ofInt n)⟩
    rw [Json.wordInt?_eq_some.2 hi] at hword
    cases hword

/-! ## Conversion -/

-- by the recursion of the conversion: a value and the lists of values inside it
mutual

/-- **What a value is converted to mirrors it.** -/
theorem mirrors_of_ofJson : ∀ {j : Json} {c : Criterion}, ofJson j = .ok c → j.Mirrors c
  | .null, c, h => by
    cases h
    exact .null
  | .boolean b, c, h => by
    cases h
    exact .boolean b
  | .text s, c, h => by
    cases h
    exact .text s
  | .float x, c, h => by
    cases h
    exact .float x
  | .integer n, c, h => by
    obtain ⟨c', hc', hmirrors⟩ := ofWhole_mirrors n
    rw [ofJson, hc'] at h
    cases h
    exact hmirrors
  | .array items, c, h => by
    rw [ofJson] at h
    cases hitems : ofJsonAll items with
    | error f =>
      rw [hitems] at h
      cases h
    | ok cs =>
      have hall := mirrors_of_ofJsonAll hitems
      rw [hitems] at h
      cases hall with
      | nil => cases h
      | cons hd htl =>
        cases h
        exact .array (List.cons_ne_nil _ _) (.cons hd htl)
  | .object members, c, h => by cases h

theorem mirrors_of_ofJsonAll : ∀ {js : List Json} {cs : List Criterion},
    ofJsonAll js = .ok cs → List.Forall₂ Json.Mirrors js cs
  | [], cs, h => by
    cases h
    exact .nil
  | j :: js, cs, h => by
    rw [ofJsonAll] at h
    cases hj : ofJson j with
    | error f =>
      rw [hj] at h
      cases h
    | ok c =>
      cases hjs : ofJsonAll js with
      | error f =>
        rw [hj, hjs] at h
        cases h
      | ok ds =>
        rw [hj, hjs] at h
        cases h
        exact .cons (mirrors_of_ofJson hj) (mirrors_of_ofJsonAll hjs)

end

mutual

/-- **A value is refused for what stands in it**, an object or an empty list. -/
theorem refused_of_ofJson : ∀ {j : Json} {f : RequestFault}, ofJson j = .error f → j.Refused f
  | .null, f, h | .boolean _, f, h | .text _, f, h | .float _, f, h => by cases h
  | .integer n, f, h => by
    obtain ⟨c, hc, -⟩ := ofWhole_mirrors n
    rw [ofJson, hc] at h
    cases h
  | .array items, f, h => by
    rw [ofJson] at h
    cases hitems : ofJsonAll items with
    | error f' =>
      rw [hitems] at h
      cases h
      obtain ⟨j, hj, hrefused⟩ := refused_of_ofJsonAll hitems
      cases hrefused with
      | object h => exact .object (.item hj h)
      | empty h => exact .empty (.item hj h)
    | ok cs =>
      have hall := mirrors_of_ofJsonAll hitems
      rw [hitems] at h
      cases hall with
      | nil =>
        cases h
        exact .empty .self
      | cons => cases h
  | .object members, f, h => by
    cases h
    exact .object .self

theorem refused_of_ofJsonAll : ∀ {js : List Json} {f : RequestFault},
    ofJsonAll js = .error f → ∃ j ∈ js, j.Refused f
  | [], f, h => by cases h
  | j :: js, f, h => by
    rw [ofJsonAll] at h
    cases hj : ofJson j with
    | error f' =>
      rw [hj] at h
      cases h
      exact ⟨j, List.mem_cons_self, refused_of_ofJson hj⟩
    | ok c =>
      cases hjs : ofJsonAll js with
      | error f' =>
        rw [hj, hjs] at h
        cases h
        obtain ⟨k, hk, hrefused⟩ := refused_of_ofJsonAll hjs
        exact ⟨k, List.mem_cons_of_mem j hk, hrefused⟩
      | ok ds =>
        rw [hj, hjs] at h
        cases h

end

end Criterion

namespace Json

/-! ## What is mirrored -/

theorem Mirrors.of_occurs {x j : Json} (h : x.Occurs j) : ∀ {c : Criterion}, j.Mirrors c → ∃ d, x.Mirrors d := by
  induction h with
  | self => exact fun hc => ⟨_, hc⟩
  | @item items j hj _ ih =>
    intro c hc
    cases hc with
    | array hne hall =>
      obtain ⟨d, -, hd⟩ := exists_mem_of_forall₂ hall j hj
      exact ih hd
  | member => exact fun hc => (by cases hc)

theorem Mirrors.occurs_of_occurs {p c : Criterion} (h : p.Occurs c) :
    ∀ {j : Json}, j.Mirrors c → ∃ x : Json, x.Occurs j ∧ x.Mirrors p := by
  induction h with
  | self => exact fun {j} hj => ⟨j, .self, hj⟩
  | inner => exact fun hj => (by cases hj)
  | @item cs c hc _ ih =>
    intro j hj
    cases hj with
    | array hne hall =>
      obtain ⟨k, hk, hmirrors⟩ := exists_mem_of_forall₂ hall.flip c hc
      obtain ⟨x, hx, hp⟩ := ih hmirrors
      exact ⟨x, .item hk hx, hp⟩

theorem Mirrors.plain {j : Json} {c : Criterion} (h : j.Mirrors c) :
    c = .null ∨ (∃ l, c = .value l) ∨ ∃ cs, cs ≠ [] ∧ c = .alternatives cs := by
  cases h with
  | null => exact .inl rfl
  | boolean | text | word | beyond | float => exact .inr (.inl ⟨_, rfl⟩)
  | @array items cs hne hall =>
    refine .inr (.inr ⟨cs, ?_, rfl⟩)
    rintro rfl
    cases hall
    exact hne rfl

end Json

/-- **JSON filters are converted exactly.**  A value is converted just if no object and no empty list stands in it.  What
it is converted to mirrors it, and consists of null, literals and lists alone.  A value that is refused is refused for an
object or an empty list in it, so never for a number. -/
theorem json_converted_exactly (j : Json) :
    ((Criterion.ofJson j).isOk = true ↔ (∀ members, ¬(Json.object members).Occurs j) ∧ ¬(Json.array []).Occurs j) ∧
      (∀ c, Criterion.ofJson j = .ok c → j.Mirrors c ∧ ∀ p : Criterion, p.Occurs c →
        (∃ x : Json, x.Occurs j ∧ x.Mirrors p) ∧
          (p = .null ∨ (∃ l, p = .value l) ∨ ∃ cs, cs ≠ [] ∧ p = .alternatives cs)) ∧
      ∀ f, Criterion.ofJson j = .error f → j.Refused f ∧ ∀ n, f ≠ .unrepresentableNumber n := by
  refine ⟨?_, fun c hc => ?_, fun f hf => ?_⟩
  · cases hj : Criterion.ofJson j with
    | ok c =>
      have hmirrors := Criterion.mirrors_of_ofJson hj
      refine iff_of_true rfl ⟨fun members hin => ?_, fun hin => ?_⟩
      · obtain ⟨d, hd⟩ := Json.Mirrors.of_occurs hin hmirrors
        cases hd
      · obtain ⟨d, hd⟩ := Json.Mirrors.of_occurs hin hmirrors
        cases hd with
        | array hne => exact hne rfl
    | error f =>
      refine iff_of_false Bool.false_ne_true ?_
      rintro ⟨hobject, hempty⟩
      cases Criterion.refused_of_ofJson hj with
      | object h => exact hobject _ h
      | empty h => exact hempty h
  · have hmirrors := Criterion.mirrors_of_ofJson hc
    refine ⟨hmirrors, fun p hp => ?_⟩
    obtain ⟨x, hx, hxp⟩ := hmirrors.occurs_of_occurs hp
    exact ⟨⟨x, hx, hxp⟩, hxp.plain⟩
  · have hrefused := Criterion.refused_of_ofJson hf
    refine ⟨hrefused, fun n hn => ?_⟩
    subst hn
    cases hrefused

example : Criterion.ofJson (.array [.integer 9223372036854775807, .array [.text "a", .null]]) =
    .ok (.alternatives [.value (.integer 9223372036854775807), .alternatives [.value (.text "a"), .null]]) := rfl

end PageQuery
