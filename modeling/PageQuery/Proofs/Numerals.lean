import Mathlib.Data.List.TakeWhile
import PageQuery.Proofs.Nearest
/-!
# Numbers in decimal notation

A number in text has a sign, digits around a point, and a power of ten; it is one rational.  Reading a double from a
text takes just the texts that spell numbers, words for infinity and not-a-number apart, and gives the double nearest to
the rational.  Reading a word takes just a sign and digits, as long as the number is in range.
-/
namespace PageQuery

open Binary64 (digitsValue signFactor nearest?)

/-! ## Digits -/

def Digits (cs : List Char) : Prop := ∀ c ∈ cs, c.isDigit = true

def digitsBehind (n : Nat) (cs : List Char) : Nat := cs.foldl (fun n c => n * 10 + (c.toNat - 48)) n

theorem digitsBehind_eq (n : Nat) (cs : List Char) : digitsBehind n cs = n * 10 ^ cs.length + digitsValue cs := by
  have hstart : ∀ m, digitsBehind m cs = m * 10 ^ cs.length + digitsBehind 0 cs := by
    induction cs with
    | nil => simp [digitsBehind]
    | cons c cs ih =>
      intro m
      have hstep : ∀ k, digitsBehind k (c :: cs) = digitsBehind (k * 10 + (c.toNat - 48)) cs := fun _ => rfl
      rw [hstep, hstep, ih, ih (0 * 10 + _), List.length_cons, Nat.pow_succ']
      ring
  exact hstart n

theorem digitsValue_cons (c : Char) (cs : List Char) :
    digitsValue (c :: cs) = (c.toNat - 48) * 10 ^ cs.length + digitsValue cs := by
  have hfirst : digitsValue (c :: cs) = digitsBehind (0 * 10 + (c.toNat - 48)) cs := rfl
  rw [hfirst, Nat.zero_mul, Nat.zero_add, digitsBehind_eq]

theorem isDigit_iff {c : Char} : c.isDigit = true ↔ 48 ≤ c.toNat ∧ c.toNat ≤ 57 := Char.isDigit_iff_toNat

theorem digitsValue_lt : ∀ {cs : List Char}, Digits cs → digitsValue cs < 10 ^ cs.length
  | [], _ => Nat.one_pos
  | c :: cs, h => by
    obtain ⟨hc, hcs⟩ := List.forall_mem_cons.1 h
    have hrest := digitsValue_lt hcs
    have hdigit := isDigit_iff.1 hc
    have hplace : (c.toNat - 48) * 10 ^ cs.length ≤ 9 * 10 ^ cs.length := Nat.mul_le_mul_right _ (by omega)
    rw [digitsValue_cons, List.length_cons, Nat.pow_succ]
    omega

theorem le_digitsValue {c : Char} {cs : List Char} (hc : c.isDigit = true) (hzero : c ≠ '0') :
    10 ^ cs.length ≤ digitsValue (c :: cs) := by
  have hdigit := isDigit_iff.1 hc
  have hnonzero : c.toNat ≠ 48 := fun h => hzero (Char.toNat_inj.1 h)
  have hplace : 1 * 10 ^ cs.length ≤ (c.toNat - 48) * 10 ^ cs.length := Nat.mul_le_mul_right _ (by omega)
  rw [digitsValue_cons]
  omega

theorem digitsValue_dropZeros : ∀ cs : List Char, digitsValue (cs.dropWhile (· = '0')) = digitsValue cs
  | [] => rfl
  | c :: cs => by
    by_cases hc : c = '0'
    · subst hc
      have hvalue : digitsValue ('0' :: cs) = digitsValue cs := by
        rw [digitsValue_cons]
        have hnone : '0'.toNat - 48 = 0 := by decide
        rw [hnone, Nat.zero_mul, Nat.zero_add]
      rw [hvalue, ← digitsValue_dropZeros cs]
      simp
    · simp [hc]

/-! ## Signs -/

inductive SignText : Bool → List Char → Prop
  | none : SignText false []
  | plus : SignText false ['+']
  | minus : SignText true ['-']

def signed (negative : Bool) (m : Nat) : Int := if negative then -(m : Int) else m

theorem cast_signed (negative : Bool) (m : Nat) : (signed negative m : ℚ) = signFactor negative * m := by
  cases negative <;> simp [signed, signFactor]

def splitSign : List Char → Bool × List Char
  | '+' :: cs => (false, cs)
  | '-' :: cs => (true, cs)
  | cs => (false, cs)

def Unsigned (cs : List Char) : Prop := ∀ c ∈ cs.head?, c ≠ '+' ∧ c ≠ '-'

theorem unsigned_of_ne {cs : List Char} (hplus : ∀ ds, cs ≠ '+' :: ds) (hminus : ∀ ds, cs ≠ '-' :: ds) :
    Unsigned cs := by
  intro c hc
  obtain ⟨ds, rfl⟩ := List.head?_eq_some_iff.1 hc
  constructor
  · rintro rfl
    exact hplus ds rfl
  · rintro rfl
    exact hminus ds rfl

theorem splitSign_of_unsigned {cs : List Char} (h : Unsigned cs) : splitSign cs = (false, cs) := by
  unfold splitSign
  split
  · exact absurd rfl (h '+' rfl).1
  · exact absurd rfl (h '-' rfl).2
  · rfl

theorem splitSign_append {negative : Bool} {sign cs : List Char} (hsign : SignText negative sign) (hcs : Unsigned cs) :
    splitSign (sign ++ cs) = (negative, cs) := by
  cases hsign with
  | none => exact splitSign_of_unsigned hcs
  | plus | minus => rfl

theorem exists_signText (cs : List Char) : ∃ sign, SignText (splitSign cs).1 sign ∧ cs = sign ++ (splitSign cs).2 := by
  unfold splitSign
  split
  · exact ⟨['+'], .plus, rfl⟩
  · exact ⟨['-'], .minus, rfl⟩
  · exact ⟨[], .none, rfl⟩

theorem ne_sign_of_isDigit {c : Char} (h : c.isDigit = true) : c ≠ '+' ∧ c ≠ '-' := by
  constructor <;> rintro rfl <;> exact absurd h (by decide)

theorem Digits.unsigned {cs : List Char} (h : Digits cs) : Unsigned cs := fun c hc =>
  ne_sign_of_isDigit (h c (List.mem_of_mem_head? hc))

/-! ## Numerals -/

/-- The text of a power of ten: nothing, or the letter, a sign and digits. -/
inductive ExponentText : Int → List Char → Prop
  | none : ExponentText 0 []
  | marked {mark : Char} {negative : Bool} {sign ds : List Char} (hmark : mark = 'e' ∨ mark = 'E')
      (hsign : SignText negative sign) (hne : ds ≠ []) (hds : Digits ds) :
      ExponentText (signed negative (digitsValue ds)) (mark :: (sign ++ ds))

/-- The text of the digits behind the point; without any, the point may be left out. -/
inductive FractionText : List Char → List Char → Prop
  | none : FractionText [] []
  | pointed {ds : List Char} (hds : Digits ds) : FractionText ds ('.' :: ds)

def splitFraction : List Char → List Char × List Char
  | '.' :: cs => Binary64.spanDigits cs
  | cs => ([], cs)

/-- A number in decimal notation: its sign, the digits before and behind the point, and the power of ten. -/
structure Numeral where
  negative : Bool
  whole : List Char
  fraction : List Char
  exponent : Int
  deriving DecidableEq, Repr

namespace Numeral

def value (x : Numeral) : ℚ :=
  signFactor x.negative * (digitsValue (x.whole ++ x.fraction) * 10 ^ (x.exponent - x.fraction.length))

/-- The text of a numeral but for its sign: at least one digit, on either side of the point. -/
def SpelledUnsigned (x : Numeral) (cs : List Char) : Prop :=
  Digits x.whole ∧ (x.whole ≠ [] ∨ x.fraction ≠ []) ∧
    ∃ fraction exponent, FractionText x.fraction fraction ∧ ExponentText x.exponent exponent ∧
      cs = x.whole ++ (fraction ++ exponent)

def Spelled (x : Numeral) (cs : List Char) : Prop :=
  ∃ sign rest, SignText x.negative sign ∧ x.SpelledUnsigned rest ∧ cs = sign ++ rest

def readUnsigned? (negative : Bool) (cs : List Char) : Option Numeral :=
  let (whole, rest) := Binary64.spanDigits cs
  let (fraction, rest) := splitFraction rest
  if whole = [] ∧ fraction = [] then none
  else (Binary64.readExponent? rest).map fun e => ⟨negative, whole, fraction, e⟩

def read? (cs : List Char) : Option Numeral := readUnsigned? (splitSign cs).1 (splitSign cs).2

end Numeral

/-! ## Reading numerals -/

theorem digits_spanDigits (cs : List Char) : Digits (Binary64.spanDigits cs).1 := fun _ hc => List.mem_takeWhile_imp hc

theorem append_spanDigits (cs : List Char) : cs = (Binary64.spanDigits cs).1 ++ (Binary64.spanDigits cs).2 :=
  List.takeWhile_append_dropWhile.symm

theorem spanDigits_append {ds rest : List Char} (hds : Digits ds) (hrest : ∀ c ∈ rest.head?, c.isDigit = false) :
    Binary64.spanDigits (ds ++ rest) = (ds, rest) := by
  have hstop : rest.takeWhile Char.isDigit = [] ∧ rest.dropWhile Char.isDigit = rest := by
    cases rest with
    | nil => exact ⟨rfl, rfl⟩
    | cons c cs =>
      have hc := hrest c rfl
      simp [hc]
  unfold Binary64.spanDigits
  rw [List.takeWhile_append_of_pos hds, List.dropWhile_append_of_pos hds, hstop.1, hstop.2, List.append_nil]

theorem readExponent?_cons (c : Char) (cs : List Char) :
    Binary64.readExponent? (c :: cs) =
      if c = 'e' ∨ c = 'E' then
        if (splitSign cs).2 ≠ [] ∧ (splitSign cs).2.all Char.isDigit then
          some (signed (splitSign cs).1 (digitsValue (splitSign cs).2))
        else none
      else none := by
  cases cs with
  | nil => rfl
  | cons d ds =>
    by_cases hminus : d = '-'
    · subst hminus
      rfl
    · by_cases hplus : d = '+'
      · subst hplus
        rfl
      · have hsplit : splitSign (d :: ds) = (false, d :: ds) :=
          splitSign_of_unsigned fun x hx => by
            cases hx
            exact ⟨hplus, hminus⟩
        rw [hsplit]
        simp only [Binary64.readExponent?, signed]
        split <;> simp_all

theorem readExponent?_eq_some {cs : List Char} {e : Int} :
    Binary64.readExponent? cs = some e ↔ ExponentText e cs := by
  constructor
  · intro h
    cases cs with
    | nil =>
      cases h
      exact .none
    | cons c cs =>
      rw [readExponent?_cons] at h
      split at h
      · next hmark =>
        split at h
        · next hds =>
          cases h
          obtain ⟨sign, hsign, hcs⟩ := exists_signText cs
          have htext := ExponentText.marked hmark hsign hds.1 (List.all_eq_true.1 hds.2)
          rwa [← hcs] at htext
        · cases h
      · cases h
  · intro h
    cases h with
    | none => rfl
    | marked hmark hsign hne hds =>
      rw [readExponent?_cons, if_pos hmark, splitSign_append hsign hds.unsigned, if_pos ⟨hne, List.all_eq_true.2 hds⟩]

theorem exists_fractionText (cs : List Char) :
    ∃ point, FractionText (splitFraction cs).1 point ∧ cs = point ++ (splitFraction cs).2 := by
  unfold splitFraction
  split
  · next cs =>
    exact ⟨_, .pointed (digits_spanDigits cs), congrArg (List.cons '.') (append_spanDigits cs)⟩
  · exact ⟨[], .none, rfl⟩

theorem ExponentText.head {e : Int} {cs : List Char} (h : ExponentText e cs) :
    ∀ c ∈ cs.head?, c.isDigit = false ∧ c ≠ '.' := by
  intro c hc
  cases h with
  | none => cases hc
  | marked hmark =>
    cases hc
    rcases hmark with rfl | rfl <;> decide

theorem splitFraction_append {fraction point rest : List Char} {e : Int} (hfraction : FractionText fraction point)
    (hrest : ExponentText e rest) : splitFraction (point ++ rest) = (fraction, rest) := by
  cases hfraction with
  | none =>
    show splitFraction rest = _
    unfold splitFraction
    split
    · exact absurd rfl (hrest.head '.' rfl).2
    · rfl
  | pointed hds => exact spanDigits_append hds fun c hc => (hrest.head c hc).1

namespace Numeral

variable {negative : Bool} {cs : List Char} {x : Numeral}

theorem readUnsigned?_eq_some : readUnsigned? negative cs = some x ↔ x.negative = negative ∧ x.SpelledUnsigned cs := by
  constructor
  · intro h
    obtain ⟨point, hpoint, hrest⟩ := exists_fractionText (Binary64.spanDigits cs).2
    unfold readUnsigned? at h
    simp only at h
    split at h
    · cases h
    · next hne =>
      obtain ⟨e, he, rfl⟩ := Option.map_eq_some_iff.1 h
      refine ⟨rfl, digits_spanDigits cs, not_and_or.1 hne, point, _, hpoint, readExponent?_eq_some.1 he, ?_⟩
      rw [← hrest]
      exact append_spanDigits cs
  · rintro ⟨rfl, hwhole, hne, point, rest, hpoint, hrest, rfl⟩
    have hstop : ∀ c ∈ (point ++ rest).head?, c.isDigit = false := by
      generalize x.fraction = fraction at hpoint
      cases hpoint with
      | none => exact fun c hc => (hrest.head c hc).1
      | pointed =>
        intro c hc
        cases hc
        decide
    unfold readUnsigned?
    simp only [spanDigits_append hwhole hstop, splitFraction_append hpoint hrest, readExponent?_eq_some.2 hrest]
    rw [if_neg (not_and_or.2 hne)]
    rfl

theorem SpelledUnsigned.head (h : x.SpelledUnsigned cs) : ∃ c ∈ cs.head?, c.isDigit = true ∨ c = '.' := by
  obtain ⟨hwhole, hne, point, rest, hpoint, -, rfl⟩ := h
  cases hdigits : x.whole with
  | nil =>
    have hfraction := hne.resolve_left (not_not.2 hdigits)
    generalize x.fraction = fraction at hpoint hfraction
    cases hpoint with
    | none => exact absurd rfl hfraction
    | pointed => exact ⟨'.', rfl, .inr rfl⟩
  | cons c ds => exact ⟨c, rfl, .inl (hwhole c (hdigits ▸ List.mem_cons_self))⟩

theorem SpelledUnsigned.unsigned (h : x.SpelledUnsigned cs) : Unsigned cs := by
  obtain ⟨c, hc, hstart⟩ := h.head
  intro d hd
  cases Option.mem_unique hc hd
  rcases hstart with hdigit | rfl
  · exact ne_sign_of_isDigit hdigit
  · decide

/-- **A numeral is read just from its text.** -/
theorem read?_eq_some : read? cs = some x ↔ x.Spelled cs := by
  unfold read?
  rw [readUnsigned?_eq_some]
  constructor
  · rintro ⟨hnegative, h⟩
    obtain ⟨sign, hsign, hcs⟩ := exists_signText cs
    exact ⟨sign, _, hnegative ▸ hsign, h, hcs⟩
  · rintro ⟨sign, rest, hsign, h, rfl⟩
    rw [splitSign_append hsign h.unsigned]
    exact ⟨rfl, h⟩

end Numeral

/-! ## The double of a numeral -/

theorem cast_tenPow (n : Nat) : ((Nat.pow 10 n : Nat) : ℚ) = 10 ^ (n : ℤ) := by
  rw [Nat.pow_eq, Nat.cast_pow, zpow_natCast]
  rfl

theorem tenTo_ratio (e : Int) :
    0 < (Binary64.tenTo e).2 ∧ ((Binary64.tenTo e).1 : ℚ) / (Binary64.tenTo e).2 = 10 ^ e := by
  unfold Binary64.tenTo
  split
  · next he =>
    obtain ⟨n, rfl⟩ := Int.eq_ofNat_of_zero_le he
    refine ⟨Nat.one_pos, ?_⟩
    rw [Nat.cast_one, div_one, Int.toNat_natCast, cast_tenPow]
  · next he =>
    obtain ⟨n, hn⟩ := Int.eq_ofNat_of_zero_le (show 0 ≤ -e by omega)
    obtain rfl : e = -(n : Int) := by omega
    refine ⟨Nat.pow_pos (by decide), ?_⟩
    rw [neg_neg, Int.toNat_natCast, cast_tenPow, Nat.cast_one, zpow_neg, one_div]

/-- A number of more than 400 digits is past the doubles. -/
theorem overflow_le_tenPow : (Binary64.overflowUnits : ℚ) / Binary64.unitsInOne ≤ 10 ^ (400 : ℤ) := by
  obtain ⟨n, hn, hunits⟩ : ∃ n : Nat, n = 400 ∧ Binary64.overflowUnits ≤ Nat.pow 10 n * Binary64.unitsInOne :=
    ⟨_, rfl, by decide +kernel⟩
  have hexponent : (400 : ℤ) = n := by omega
  rw [hexponent, ← cast_tenPow, div_le_iff₀ Binary64.cast_unitsInOne_pos]
  exact_mod_cast hunits

theorem tenPow_lt_half : (10 : ℚ) ^ (-401 : ℤ) < 1 / (2 * Binary64.unitsInOne) := by
  obtain ⟨n, hn, hunits⟩ : ∃ n : Nat, n = 401 ∧ 2 * Binary64.unitsInOne < Nat.pow 10 n :=
    ⟨_, rfl, by decide +kernel⟩
  have hexponent : (-401 : ℤ) = -n := by omega
  have hscale : (0 : ℚ) < 2 * Binary64.unitsInOne := mul_pos two_pos Binary64.cast_unitsInOne_pos
  rw [hexponent, zpow_neg, ← one_div, ← cast_tenPow]
  exact one_div_lt_one_div_of_lt hscale (by exact_mod_cast hunits)

/-- Between which powers of ten a number is whose first digit is none of its zeros. -/
theorem tenPow_bounds {c : Char} {cs : List Char} (hds : Digits (c :: cs)) (hzero : c ≠ '0') (e : Int) :
    (10 : ℚ) ^ (e + cs.length) ≤ digitsValue (c :: cs) * 10 ^ e ∧
      (digitsValue (c :: cs) : ℚ) * 10 ^ e < 10 ^ (e + cs.length + 1) := by
  have hpow : ∀ n : Nat, (10 : ℚ) ^ (e + n) = ((10 ^ n : Nat) : ℚ) * 10 ^ e := fun n => by
    rw [zpow_add₀ (by norm_num), zpow_natCast, Nat.cast_pow, mul_comm]
    rfl
  have hscale : (0 : ℚ) < 10 ^ e := zpow_pos (by norm_num) e
  constructor
  · rw [hpow]
    exact mul_le_mul_of_nonneg_right (Nat.cast_le.2 (le_digitsValue (hds c List.mem_cons_self) hzero)) hscale.le
  · have hlength : e + (cs.length : ℤ) + 1 = e + ((c :: cs).length : Nat) := by
      rw [List.length_cons]
      omega
    rw [hlength, hpow]
    exact mul_lt_mul_of_pos_right (Nat.cast_lt.2 (digitsValue_lt hds)) hscale

/-- **Digits and a power of ten become the nearest double**, also where the place of the leading digit settles it. -/
theorem value?_ofDecimal (negative : Bool) {ds : List Char} (hds : Digits ds) (e : Int) :
    (Binary64.ofDecimal negative ds e).value? = nearest? (signFactor negative * (digitsValue ds * 10 ^ e)) := by
  have hdigits : Digits (ds.dropWhile (· = '0')) := fun c hc => hds c (List.dropWhile_subset _ hc)
  have hfirst := List.head?_dropWhile_not (fun c => decide (c = '0')) ds
  rw [← digitsValue_dropZeros ds]
  unfold Binary64.ofDecimal
  simp only
  generalize ds.dropWhile (fun c => decide (c = '0')) = significant at *
  cases significant with
  | nil =>
    have hvalue : digitsValue [] = 0 := rfl
    have hdouble : Binary64.IsDouble 0 := ⟨0, 0, by decide, by decide, by decide, by norm_num⟩
    rw [if_pos rfl, hvalue, Binary64.value?_finite, Nat.cast_zero, zero_div, zero_mul, mul_zero,
      Binary64.nearest?_self hdouble]
  | cons c cs =>
    obtain ⟨hleast, hgreatest⟩ := tenPow_bounds hdigits (of_decide_eq_false hfirst) e
    have habs : |signFactor negative * (digitsValue (c :: cs) * 10 ^ e)| = digitsValue (c :: cs) * 10 ^ e := by
      rw [abs_mul, Binary64.abs_signFactor, one_mul, abs_of_pos (lt_of_lt_of_le (zpow_pos (by norm_num) _) hleast)]
    rw [if_neg (List.cons_ne_nil c cs), List.length_cons]
    split
    · next hlarge =>
      have hpower : (10 : ℚ) ^ (400 : ℤ) ≤ 10 ^ (e + cs.length) := zpow_le_zpow_right₀ (by norm_num) (by omega)
      rw [Binary64.nearest?_large]
      · rfl
      · rw [habs]
        exact overflow_le_tenPow.trans (hpower.trans hleast)
    · split
      · next hsmall =>
        have hpower : (10 : ℚ) ^ (e + cs.length + 1) ≤ 10 ^ (-401 : ℤ) := zpow_le_zpow_right₀ (by norm_num) (by omega)
        rw [Binary64.nearest?_small, Binary64.value?_finite, Nat.cast_zero, zero_div, mul_zero]
        rw [habs]
        exact (hgreatest.trans_le hpower).trans tenPow_lt_half
      · obtain ⟨hpos, hratio⟩ := tenTo_ratio e
        rw [Binary64.value?_ofRatio negative _ hpos, Nat.cast_mul, mul_div_assoc, hratio]

/-! ## Reading a double -/

def Numeral.double (x : Numeral) : Binary64 :=
  .ofDecimal x.negative (x.whole ++ x.fraction) (x.exponent - x.fraction.length)

theorem readMagnitude?_eq (negative : Bool) (cs : List Char) :
    Binary64.readMagnitude? negative cs = (Numeral.readUnsigned? negative cs).map Numeral.double := by
  have hparts : Binary64.readMagnitude? negative cs =
      if (Binary64.spanDigits cs).1 = [] ∧ (splitFraction (Binary64.spanDigits cs).2).1 = [] then none
      else (Binary64.readExponent? (splitFraction (Binary64.spanDigits cs).2).2).map fun e =>
        Numeral.double ⟨negative, (Binary64.spanDigits cs).1, (splitFraction (Binary64.spanDigits cs).2).1, e⟩ := rfl
  rw [hparts]
  unfold Numeral.readUnsigned?
  simp only
  split
  · rfl
  · rw [Option.map_map]
    rfl

theorem binary64_read?_eq (s : String) :
    Binary64.read? s = Binary64.readUnsigned? (splitSign s.toList).1 (splitSign s.toList).2 := by
  unfold Binary64.read?
  generalize s.toList = cs
  split
  · rfl
  · rfl
  · next hplus hminus =>
    rw [splitSign_of_unsigned (unsigned_of_ne hplus hminus)]

theorem toLower_of_lt {c : Char} (h : c.toNat < 65) : c.toLower = c := by
  unfold Char.toLower
  refine dif_neg fun hupper => ?_
  have hletter := UInt32.le_iff_toNat_le.1 hupper.1
  exact absurd h (Nat.not_lt.2 hletter)

theorem readWord?_eq_some {negative : Bool} {cs : List Char} {x : Binary64}
    (h : Binary64.readWord? negative cs = some x) : x.value? = none ∧ ∀ c ∈ cs.head?, ¬c.toNat < 65 := by
  have hletter : ∀ {c : Char} {rest word : List Char}, (c :: rest).map Char.toLower = word →
      word.head? = some 'n' ∨ word.head? = some 'i' → ¬c.toNat < 65 := by
    rintro c rest word rfl hword hlt
    rw [List.map_cons, toLower_of_lt hlt, List.head?_cons, Option.some_inj, Option.some_inj] at hword
    rcases hword with rfl | rfl <;> exact absurd hlt (by decide)
  unfold Binary64.readWord? at h
  simp only at h
  split at h
  · next hnan =>
    cases h
    refine ⟨rfl, fun c hc => ?_⟩
    obtain ⟨rest, rfl⟩ := List.head?_eq_some_iff.1 hc
    exact hletter hnan (.inl rfl)
  · split at h
    · next hinfinity =>
      cases h
      refine ⟨rfl, fun c hc => ?_⟩
      obtain ⟨rest, rfl⟩ := List.head?_eq_some_iff.1 hc
      rcases hinfinity with hword | hword
      · exact hletter hword (.inr rfl)
      · exact hletter hword (.inr rfl)
    · cases h

theorem value?_readUnsigned? (negative : Bool) (cs : List Char) :
    (Binary64.readUnsigned? negative cs).bind Binary64.value? =
      (Numeral.readUnsigned? negative cs).bind fun x => x.double.value? := by
  unfold Binary64.readUnsigned?
  cases hword : Binary64.readWord? negative cs with
  | none =>
    rw [readMagnitude?_eq, Option.bind_map]
    rfl
  | some w =>
    obtain ⟨hvalue, hletter⟩ := readWord?_eq_some hword
    have hnumeral : Numeral.readUnsigned? negative cs = none := by
      refine Option.eq_none_iff_forall_ne_some.2 fun x hx => ?_
      obtain ⟨c, hc, hstart⟩ := (Numeral.readUnsigned?_eq_some.1 hx).2.head
      refine hletter c hc ?_
      rcases hstart with hdigit | rfl
      · have := isDigit_iff.1 hdigit
        omega
      · decide
    rw [hnumeral]
    exact hvalue

theorem Numeral.Spelled.value?_double {x : Numeral} {cs : List Char} (h : x.Spelled cs) :
    x.double.value? = nearest? x.value := by
  obtain ⟨-, -, -, ⟨hwhole, -, point, -, hpoint, -⟩, -⟩ := h
  have hfraction : Digits x.fraction := by
    generalize x.fraction = fraction at hpoint
    cases hpoint with
    | none => exact fun _ hc => absurd hc List.not_mem_nil
    | pointed hds => exact hds
  exact value?_ofDecimal x.negative (List.forall_mem_append.2 ⟨hwhole, hfraction⟩) _

/-- **What a text is read as** has a value just if the text spells a number that doubles are near to, and the value is
the nearest double's. -/
theorem value?_read?_eq_some {s : String} {y : ℚ} :
    (Binary64.read? s).bind Binary64.value? = some y ↔
      ∃ x : Numeral, x.Spelled s.toList ∧ nearest? x.value = some y := by
  rw [binary64_read?_eq, value?_readUnsigned?, Option.bind_eq_some_iff]
  refine exists_congr fun x => ?_
  have hread : Numeral.readUnsigned? (splitSign s.toList).1 (splitSign s.toList).2 = some x ↔ x.Spelled s.toList :=
    Numeral.read?_eq_some
  rw [hread]
  exact and_congr_right fun hx => by rw [hx.value?_double]

/-! ## Reading a word -/

def WholeText (n : Int) (cs : List Char) : Prop :=
  ∃ negative sign ds, SignText negative sign ∧ ds ≠ [] ∧ Digits ds ∧ cs = sign ++ ds ∧
    n = signed negative (digitsValue ds)

theorem digitValue?_of_isDigit {c : Char} (h : c.isDigit = true) : digitValue? c = some (c.toNat - 48) := by
  obtain ⟨hleast, hgreatest⟩ := isDigit_iff.1 h
  unfold digitValue?
  rw [if_pos]
  exact ⟨UInt32.le_iff_toNat_le.2 hleast, UInt32.le_iff_toNat_le.2 hgreatest⟩

theorem digitValue?_of_not_isDigit {c : Char} (h : ¬c.isDigit = true) : digitValue? c = none := by
  unfold digitValue?
  rw [if_neg]
  rintro ⟨hleast, hgreatest⟩
  exact h (isDigit_iff.2 ⟨UInt32.le_iff_toNat_le.1 hleast, UInt32.le_iff_toNat_le.1 hgreatest⟩)

theorem le_digitsBehind (n : Nat) (cs : List Char) : n ≤ digitsBehind n cs := by
  rw [digitsBehind_eq]
  exact (Nat.le_mul_of_pos_right n (Nat.pow_pos (by decide))).trans (Nat.le_add_right _ _)

theorem readDigits_eq_ok {limit n m : Nat} (hn : n ≤ limit) {cs : List Char} :
    readDigits limit n cs = .ok m ↔ Digits cs ∧ digitsBehind n cs = m ∧ m ≤ limit := by
  induction cs generalizing n with
  | nil =>
    have hnone : Digits [] := fun _ hc => absurd hc List.not_mem_nil
    have hvalue : digitsBehind n [] = n := rfl
    rw [readDigits, Except.ok.injEq, hvalue]
    constructor
    · rintro rfl
      exact ⟨hnone, rfl, hn⟩
    · exact fun h => h.2.1
  | cons c cs ih =>
    have hvalue : digitsBehind n (c :: cs) = digitsBehind (n * 10 + (c.toNat - 48)) cs := rfl
    have hdigits : Digits (c :: cs) ↔ c.isDigit = true ∧ Digits cs := List.forall_mem_cons
    rw [readDigits, hvalue, hdigits]
    by_cases hc : c.isDigit = true
    · rw [digitValue?_of_isDigit hc]
      simp only [hc, true_and]
      split
      · next hwithin => exact ih hwithin
      · next hpast =>
        have hgrows := le_digitsBehind (n * 10 + (c.toNat - 48)) cs
        exact iff_of_false (by simp) fun h => hpast (hgrows.trans (h.2.1 ▸ h.2.2))
    · rw [digitValue?_of_not_isDigit hc]
      exact iff_of_false (by simp) fun h => hc h.1.1

def greatestMagnitude (negative : Bool) : Nat := if negative then maxSigned + 1 else maxSigned

theorem readSigned_eq_ok_behind_sign {s : String} {n : Int64} :
    readSigned s = .ok n ↔ (splitSign s.toList).2 ≠ [] ∧
      ∃ m, readDigits (greatestMagnitude (splitSign s.toList).1) 0 (splitSign s.toList).2 = .ok m ∧
        Int64.ofInt (signed (splitSign s.toList).1 m) = n := by
  have hmap : ∀ (f : Int → Int64) (x : Except WholeFault Nat),
      (((fun m : Nat => (m : Int)) <$> x).map f) = .ok n ↔ ∃ m : Nat, x = .ok m ∧ f m = n := by
    intro f x
    cases x with
    | error fault =>
      refine ⟨fun h => (by cases h), ?_⟩
      rintro ⟨_, h, -⟩
      cases h
    | ok m =>
      constructor
      · intro h
        exact ⟨m, rfl, Except.ok.inj h⟩
      · rintro ⟨_, h, rfl⟩
        cases h
        rfl
  unfold readSigned
  generalize s.toList = cs
  split
  · exact ⟨fun h => (by cases h), fun h => absurd rfl h.1⟩
  · exact ⟨fun h => (by cases h), fun h => absurd rfl h.1⟩
  · exact ⟨fun h => (by cases h), fun h => absurd rfl h.1⟩
  · next ds hne => exact (hmap _ _).trans (and_iff_right fun hnil => hne hnil).symm
  · next ds hne => exact (hmap _ _).trans (and_iff_right fun hnil => hne hnil).symm
  · next hnil _ _ hplus hminus =>
    rw [splitSign_of_unsigned (unsigned_of_ne hplus hminus)]
    exact (hmap _ _).trans (and_iff_right fun h => hnil h).symm

/-- **A word is read just from the text of a whole number** in its range. -/
theorem readSigned_eq_ok {s : String} {n : Int64} : readSigned s = .ok n ↔ WholeText n.toInt s.toList := by
  have hword : ∀ (negative : Bool) {m : Nat}, m ≤ greatestMagnitude negative →
      (Int64.ofInt (signed negative m) = n ↔ n.toInt = signed negative m) := by
    intro negative m hm
    have hrange : -2 ^ 63 ≤ signed negative m ∧ signed negative m < 2 ^ 63 := by
      unfold greatestMagnitude maxSigned at hm
      unfold signed
      cases negative
      · simp only [Bool.false_eq_true, if_false] at hm ⊢
        omega
      · simp only [if_true] at hm ⊢
        omega
    rw [← Int64.toInt_inj, Int64.toInt_ofInt_of_le hrange.1 hrange.2, eq_comm]
  rw [readSigned_eq_ok_behind_sign]
  constructor
  · rintro ⟨hne, m, hread, hn⟩
    obtain ⟨hdigits, rfl, hm⟩ := (readDigits_eq_ok (Nat.zero_le _)).1 hread
    obtain ⟨sign, hsign, htext⟩ := exists_signText s.toList
    exact ⟨_, sign, _, hsign, hne, hdigits, htext, (hword _ hm).1 hn⟩
  · rintro ⟨negative, sign, ds, hsign, hne, hdigits, htext, hn⟩
    rw [htext, splitSign_append hsign hdigits.unsigned]
    have hm : digitsValue ds ≤ greatestMagnitude negative := by
      have hleast := n.le_toInt
      have hgreatest := n.toInt_lt
      rw [hn] at hleast hgreatest
      unfold signed at hleast hgreatest
      unfold greatestMagnitude maxSigned
      cases negative
      · simp only [Bool.false_eq_true, if_false] at hgreatest ⊢
        omega
      · simp only [if_true] at hleast ⊢
        omega
    exact ⟨hne, _, (readDigits_eq_ok (Nat.zero_le _)).2 ⟨hdigits, rfl, hm⟩, (hword _ hm).2 hn⟩

end PageQuery
