import PageQuery.Filter.Operand
import PageQuery.Proofs.Numerals
/-!
# Operands of the integer type

A literal is exactly one rational, or none.  One that is written as a whole number is read as it is; every other is read
through a double: a float is one already, and other text becomes the nearest.  So a text that is written with a point or
an exponent is read as another number where no double is what it says, and the least word is refused where it comes as a
double.
-/
namespace PageQuery

open Binary64 (IsDouble nearest?)

/-! ## Doubles that are whole -/

theorem toInt?_eq_some {x : Binary64} {k : Int} : x.toInt? = some k ↔ x.value? = some (k : ℚ) := by
  cases x with
  | nan | infinite => exact ⟨fun h => (by cases h), fun h => (by cases h)⟩
  | finite negative units =>
    have hone := Binary64.cast_unitsInOne_pos
    rw [Binary64.value?_finite, Option.some_inj]
    unfold Binary64.toInt?
    simp only
    generalize Binary64.unitsInOne = one at hone ⊢
    by_cases hwhole : one ∣ units
    · obtain ⟨m, rfl⟩ := hwhole
      rw [if_pos (Nat.mul_mod_right one m), Nat.mul_div_cancel_left m (Nat.cast_pos.1 hone), Option.some_inj,
        Nat.cast_mul, mul_div_cancel_left₀ _ hone.ne', ← cast_signed, Int.cast_inj, signed]
    · rw [if_neg (fun h => hwhole (Nat.dvd_of_mod_eq_zero h))]
      refine ⟨fun h => (by cases h), fun hvalue => absurd ⟨k.natAbs, ?_⟩ hwhole⟩
      have hmagnitude : (units : ℚ) / one = k.natAbs := by
        have habs := congrArg abs hvalue
        rwa [abs_mul, Binary64.abs_signFactor, one_mul, abs_of_nonneg (div_nonneg (Nat.cast_nonneg _) hone.le),
          ← Int.cast_abs, ← Nat.cast_natAbs] at habs
      rw [div_eq_iff hone.ne', mul_comm] at hmagnitude
      exact_mod_cast hmagnitude

theorem wholeOfDouble_eq_ok {x : Binary64} {n : Int64} :
    wholeOfDouble x = .ok n ↔ n ≠ Int64.minValue ∧ x.value? = some (n.toInt : ℚ) := by
  have hleast : n ≠ Int64.minValue ↔ n.toInt.natAbs < 9223372036854775808 := by
    rw [ne_eq, ← Int64.toInt_inj, Int64.toInt_minValue]
    have := n.le_toInt
    have := n.toInt_lt
    omega
  rw [hleast, ← toInt?_eq_some]
  unfold wholeOfDouble
  split
  · next k hk =>
    rw [hk, Option.some_inj]
    split
    · next hrange =>
      have hword : (Int64.ofInt k).toInt = k := Int64.toInt_ofInt_of_le (by omega) (by omega)
      rw [Except.ok.injEq, ← Int64.toInt_inj, hword]
      exact ⟨fun h => ⟨h ▸ hrange, h⟩, fun h => h.2⟩
    · next hrange => exact ⟨fun h => (by cases h), fun h => absurd (h.2 ▸ h.1) hrange⟩
  · next hnone =>
    rw [hnone]
    exact ⟨fun h => (by cases h), fun h => (by cases h.2)⟩

namespace Literal

/-- The rational that a literal is, exactly. -/
def Denotes : Literal → ℚ → Prop
  | .integer n, q => q = n.toInt
  | .float x, q => x.value? = some q
  | .text s, q => ∃ x : Numeral, x.Spelled (trim s).toList ∧ x.value = q
  | .boolean _, _ => False

/-- The literal is written as a whole number that is a word. -/
def WrittenWhole : Literal → Int64 → Prop
  | .integer m, n => m = n
  | .text s, n => WholeText n.toInt (trim s).toList
  | .float _, _ => False
  | .boolean _, _ => False

/-- The value of the double that a literal is read through. -/
def Held : Literal → ℚ → Prop
  | .float x, y => x.value? = some y
  | .text s, y => ∃ q, Denotes (.text s) q ∧ nearest? q = some y
  | .integer _, _ => False
  | .boolean _, _ => False

/-- The literal becomes the word that it is, and no other. -/
def ReadExactly (l : Literal) : Prop :=
  ∀ n : Int64, l.toNumber .integer = .ok (.int64 n) ↔ l.Denotes n.toInt

variable {l : Literal}

theorem Denotes.unique {p q : ℚ} (hp : l.Denotes p) (hq : l.Denotes q) : p = q := by
  cases l with
  | integer n => exact hp.trans hq.symm
  | float x => exact Option.some_inj.1 (hp.symm.trans hq)
  | text s =>
    obtain ⟨x, hx, rfl⟩ := hp
    obtain ⟨y, hy, rfl⟩ := hq
    rw [Option.some_inj.1 ((Numeral.read?_eq_some.2 hx).symm.trans (Numeral.read?_eq_some.2 hy))]
  | boolean b => exact hp.elim

theorem WrittenWhole.denotes {n : Int64} (h : l.WrittenWhole n) : l.Denotes n.toInt := by
  cases l with
  | integer m => rw [← (h : m = n)]; rfl
  | float x => exact h.elim
  | text s =>
    obtain ⟨negative, sign, ds, hsign, hne, hdigits, htext, hn⟩ := h
    refine ⟨⟨negative, ds, [], 0⟩, ⟨sign, ds, hsign, ⟨hdigits, .inl hne, [], [], .none, .none, ?_⟩, htext⟩, ?_⟩
    · rw [List.append_nil, List.append_nil]
    · unfold Numeral.value
      simp only [List.append_nil, List.length_nil, Nat.cast_zero, sub_zero, zpow_zero, mul_one, hn, cast_signed]
  | boolean b => exact h.elim

/-- **A literal becomes a word** that it is written as, or that its double's value is. -/
theorem toWhole_eq_ok {n : Int64} :
    l.toWhole = .ok n ↔
      l.WrittenWhole n ∨ (∀ m, ¬l.WrittenWhole m) ∧ n ≠ Int64.minValue ∧ l.Held n.toInt := by
  cases l with
  | integer m =>
    have hwritten : (Literal.integer m).WrittenWhole m := rfl
    constructor
    · intro h
      exact .inl (Except.ok.inj h)
    · rintro (h | ⟨hnone, -⟩)
      · exact congrArg Except.ok h
      · exact absurd hwritten (hnone m)
  | float x =>
    refine wholeOfDouble_eq_ok.trans ⟨fun h => .inr ⟨fun _ => id, h⟩, ?_⟩
    rintro (h | ⟨-, h⟩)
    · exact h.elim
    · exact h
  | text s =>
    have hheld : ((Binary64.read? (trim s)).bind Binary64.value? = some (n.toInt : ℚ)) ↔ Held (.text s) n.toInt :=
      value?_read?_eq_some.trans
        ⟨fun ⟨x, hx, hy⟩ => ⟨_, ⟨x, hx, rfl⟩, hy⟩, fun ⟨_, ⟨x, hx, hq⟩, hy⟩ => ⟨x, hx, hq ▸ hy⟩⟩
    have hwritten : ∀ m, readSigned (trim s) = .ok m ↔ (Literal.text s).WrittenWhole m := fun m => readSigned_eq_ok
    rw [← hheld]
    simp only [← hwritten]
    unfold toWhole
    simp only
    cases hsigned : readSigned (trim s) with
    | ok m => simp
    | error fault =>
      cases hread : Binary64.read? (trim s) with
      | none => simp
      | some x => simp [wholeOfDouble_eq_ok]
  | boolean b =>
    refine ⟨fun h => (by cases h), ?_⟩
    rintro (h | ⟨-, -, h⟩)
    · exact h.elim
    · exact h.elim

theorem toNumber_integer_eq_ok {v : Value} :
    l.toNumber .integer = .ok v ↔ ∃ n : Int64, v = .int64 n ∧ l.toWhole = .ok n := by
  unfold toNumber
  cases l.toWhole with
  | error fault =>
    refine ⟨fun h => (by cases h), ?_⟩
    rintro ⟨_, -, h⟩
    cases h
  | ok n =>
    constructor
    · intro h
      exact ⟨n, (Except.ok.inj h).symm, rfl⟩
    · rintro ⟨_, rfl, h⟩
      cases h
      rfl

theorem int64_toNumber {n : Int64} : l.toNumber .integer = .ok (.int64 n) ↔ l.toWhole = .ok n := by
  rw [toNumber_integer_eq_ok]
  constructor
  · rintro ⟨m, h, hm⟩
    cases h
    exact hm
  · exact fun h => ⟨n, rfl, h⟩

/-- **No double is nearer** to what a literal is than the one that it is read through. -/
theorem Held.near {q y z : ℚ} (hq : l.Denotes q) (hy : l.Held y) (hz : IsDouble z) : |y - q| ≤ |z - q| := by
  cases l with
  | integer n => exact hy.elim
  | float x =>
    rw [Option.some_inj.1 ((hy : x.value? = some y).symm.trans hq), sub_self, abs_zero]
    exact abs_nonneg _
  | text s =>
    obtain ⟨p, hp, hnearest⟩ := hy
    rw [hq.unique hp]
    exact Binary64.nearest?_near hnearest hz
  | boolean b => exact hy.elim

theorem Held.isDouble {q y : ℚ} (hq : l.Denotes q) (hy : l.Held y) : y = q ∨ IsDouble y := by
  cases l with
  | integer n => exact hy.elim
  | float x => exact .inl (Option.some_inj.1 ((hy : x.value? = some y).symm.trans hq))
  | text s =>
    obtain ⟨p, -, hnearest⟩ := hy
    exact .inr (Binary64.isDouble_of_nearest? hnearest)
  | boolean b => exact hy.elim

/-- A double that a literal is, not being written whole, is the one that it is read through. -/
theorem Denotes.held {q : ℚ} (hq : l.Denotes q) (hnone : ∀ n, ¬l.WrittenWhole n) (hdouble : IsDouble q) : l.Held q := by
  cases l with
  | integer n => exact absurd rfl (hnone n)
  | float x => exact hq
  | text s => exact ⟨q, hq, Binary64.nearest?_self hdouble⟩
  | boolean b => exact hq.elim

theorem Held.unique {p q : ℚ} (hp : l.Held p) (hq : l.Held q) : p = q := by
  cases l with
  | integer n => exact hp.elim
  | float x => exact Option.some_inj.1 (Eq.trans (Eq.symm hp) hq)
  | text s =>
    obtain ⟨x, hx, hp⟩ := hp
    obtain ⟨y, hy, hq⟩ := hq
    rw [hx.unique hy] at hp
    exact Option.some_inj.1 (hp.symm.trans hq)
  | boolean b => exact hp.elim

/-- **When a literal becomes the word that it is**: where it is written as one, and else where its double and it agree
as words, but for the least one. -/
theorem readExactly_iff :
    l.ReadExactly ↔ (∃ n, l.WrittenWhole n) ∨
      ∀ n : Int64, n ≠ Int64.minValue ∧ l.Held n.toInt ↔ l.Denotes n.toInt := by
  unfold ReadExactly
  simp only [int64_toNumber, toWhole_eq_ok]
  by_cases hwritten : ∃ n, l.WrittenWhole n
  · obtain ⟨m, hm⟩ := hwritten
    refine iff_of_true (fun n => ?_) (.inl ⟨m, hm⟩)
    constructor
    · rintro (hn | ⟨hnone, -⟩)
      · exact hn.denotes
      · exact absurd hm (hnone m)
    · intro hn
      rw [← Int64.toInt_inj.1 (Int.cast_inj.1 (hm.denotes.unique hn))]
      exact .inl hm
  · have hnone : ∀ n, ¬l.WrittenWhole n := not_exists.1 hwritten
    simp only [hnone, exists_false, not_false_eq_true, implies_true, true_and, false_or]

/-- **Reading an operand of the integer type.**  What a literal becomes is always a word: the one that it is written as,
and if it is not written as one, the value of its double, unless that is the least word.  The double is nearest to what
the literal is.  The literal becomes the word that it is, and no other, just if it is written as a whole number or its
double and it agree as words, but for the least one; so it does wherever it is a double other than the least word. -/
theorem integer_operand_read (l : Literal) :
    (∀ v, l.toNumber .integer = .ok v ↔ ∃ n : Int64, v = .int64 n ∧
        (l.WrittenWhole n ∨ (∀ m, ¬l.WrittenWhole m) ∧ n ≠ Int64.minValue ∧ l.Held n.toInt)) ∧
      (∀ q y, l.Denotes q → l.Held y → (y = q ∨ IsDouble y) ∧ ∀ z, IsDouble z → |y - q| ≤ |z - q|) ∧
      (l.ReadExactly ↔ (∃ n, l.WrittenWhole n) ∨
        ∀ n : Int64, n ≠ Int64.minValue ∧ l.Held n.toInt ↔ l.Denotes n.toInt) ∧
      ∀ q, l.Denotes q → IsDouble q → q ≠ Int64.minValue.toInt → l.ReadExactly := by
  refine ⟨fun v => ?_, fun q y hq hy => ⟨hy.isDouble hq, fun z => hy.near hq⟩, readExactly_iff,
    fun q hq hdouble hleast => ?_⟩
  · simp only [toNumber_integer_eq_ok, toWhole_eq_ok]
  · refine readExactly_iff.2 (or_iff_not_imp_left.2 fun hwritten n => ?_)
    have hheld := hq.held (not_exists.1 hwritten) hdouble
    constructor
    · rintro ⟨-, hn⟩
      rwa [hn.unique hheld]
    · intro hn
      obtain rfl := hq.unique hn
      exact ⟨fun h => hleast (by rw [h]), hheld⟩

/-- The first whole number that no double is becomes its neighbour when it is written with a point; and the least word,
which is a double, is refused as a float. -/
theorem neighbour_read_and_least_refused :
    let written := Literal.text "9007199254740993.0"
    let least := Literal.float (.ofInt (-9223372036854775808))
    (written.Denotes 9007199254740993 ∧ written.toNumber .integer = .ok (.int64 9007199254740992)) ∧
      (least.Denotes Int64.minValue.toInt ∧ ∀ v, least.toNumber .integer ≠ .ok v) ∧
      ¬written.ReadExactly ∧ ¬least.ReadExactly := by
  intro written least
  have hwritten : written.Denotes 9007199254740993 := by
    refine ⟨⟨false, "9007199254740993".toList, ['0'], 0⟩, Numeral.read?_eq_some.1 (by decide +kernel), ?_⟩
    have hdigits : Binary64.digitsValue ("9007199254740993".toList ++ ['0']) = 90071992547409930 := by decide +kernel
    unfold Numeral.value
    simp only [hdigits, Binary64.signFactor]
    norm_num
  have hleast : least.Denotes Int64.minValue.toInt := by
    have hdouble : IsDouble (Binary64.signFactor true * ((9223372036854775808 : Nat) / (1 : Nat))) :=
      ⟨-1, 63, by decide, by decide, by decide, by norm_num [Binary64.signFactor]⟩
    have hvalue := (Binary64.value?_ofRatio true _ Nat.one_pos).trans (Binary64.nearest?_self hdouble)
    refine hvalue.trans (congrArg some ?_)
    rw [Int64.toInt_minValue]
    norm_num [Binary64.signFactor]
  have hread : written.toNumber .integer = .ok (.int64 9007199254740992) := by decide +kernel
  have hrefused : ∀ v, least.toNumber .integer ≠ .ok v := by
    intro v hv
    obtain ⟨n, -, hn⟩ := toNumber_integer_eq_ok.1 hv
    rcases toWhole_eq_ok.1 hn with h | ⟨-, hother, hheld⟩
    · exact h
    · exact hother (Int64.toInt_inj.1 (Int.cast_inj.1 (hheld.unique hleast)))
  refine ⟨⟨hwritten, hread⟩, ⟨hleast, hrefused⟩, fun hexact => ?_, fun hexact => ?_⟩
  · have hsame := hwritten.unique ((hexact _).1 hread)
    have hword : (9007199254740992 : Int64).toInt = 9007199254740992 := by decide
    rw [hword] at hsame
    norm_num at hsame
  · exact hrefused _ ((hexact _).2 hleast)

end Literal
end PageQuery
