import Mathlib.Algebra.Order.Field.Power
import Mathlib.Data.Nat.Dist
import Mathlib.Data.Rat.Cast.Order
import Mathlib.Tactic.FieldSimp
import Mathlib.Tactic.Linarith
import Mathlib.Tactic.NormNum
import Mathlib.Tactic.Positivity
import Mathlib.Tactic.Ring
import PageQuery.Number.Decimal
/-!
# The double nearest to a rational

The doubles among the rationals are the whole numbers of at most 53 binary places times powers of two, within a range of
powers.  Rounding a ratio gives one that no double is nearer to, however the ratio is written, and so a double gives
itself.  Past the greatest of them there is none.
-/
namespace PageQuery
namespace Binary64

/-! ## Values -/

def signFactor (negative : Bool) : ℚ := if negative then -1 else 1

/-- The value of a finite double. -/
def value? : Binary64 → Option ℚ
  | .finite negative units => some (signFactor negative * (units / unitsInOne))
  | _ => none

theorem value?_finite (negative : Bool) (units : Nat) :
    (finite negative units).value? = some (signFactor negative * (units / unitsInOne)) := rfl

/-- The rationals that doubles are exactly. -/
def IsDouble (x : ℚ) : Prop :=
  ∃ m e : ℤ, |m| < 2 ^ 53 ∧ -1074 ≤ e ∧ e ≤ 971 ∧ x = m * 2 ^ e

def ofRat (q : ℚ) : Binary64 := ofRatio (decide (q < 0)) q.num.natAbs q.den

/-- The value of the double nearest to a rational, unless the rational is past them all. -/
def nearest? (q : ℚ) : Option ℚ := (ofRat q).value?

theorem two_pow_pos (n : Nat) : 0 < Nat.pow 2 n := Nat.pow_pos (by decide)

theorem unitsInOne_pos : 0 < unitsInOne := by
  unfold unitsInOne
  generalize 1074 = n
  exact two_pow_pos n

theorem overflowUnits_pos : 0 < overflowUnits := by
  unfold overflowUnits
  generalize 2098 = n
  exact two_pow_pos n

theorem spacing_pos (units : Nat) : 0 < spacing units := two_pow_pos (units.log2 - 52)

theorem abs_signFactor (negative : Bool) : |signFactor negative| = 1 := by
  cases negative
  · exact abs_one
  · exact (abs_neg 1).trans abs_one

theorem signFactor_mul_abs (q : ℚ) : signFactor (decide (q < 0)) * |q| = q := by
  unfold signFactor
  by_cases h : q < 0
  · rw [if_pos (decide_eq_true h), abs_of_neg h, neg_mul_neg, one_mul]
  · rw [if_neg (by simpa using h), abs_of_nonneg (not_lt.1 h), one_mul]

/-! ## Quotients -/

theorem roundHalfEven_cases (n d : Nat) :
    roundHalfEven n d = n / d ∧ 2 * (n % d) ≤ d ∨ roundHalfEven n d = n / d + 1 ∧ d ≤ 2 * (n % d) := by
  unfold roundHalfEven
  simp only
  split
  · exact .inl ⟨rfl, by omega⟩
  · split
    · exact .inr ⟨rfl, by omega⟩
    · split
      · exact .inl ⟨rfl, by omega⟩
      · exact .inr ⟨rfl, by omega⟩

theorem roundHalfEven_near (n d k : Nat) (hd : 0 < d) :
    Nat.dist (roundHalfEven n d * d) n ≤ Nat.dist (k * d) n := by
  have hdivision : n / d * d + n % d = n := Nat.div_add_mod' n d
  have hrest : n % d < d := Nat.mod_lt n hd
  have hk : k * d ≤ n / d * d ∨ n / d * d + d ≤ k * d := by
    rcases Nat.lt_or_ge (n / d) k with h | h
    · exact .inr (by rw [← Nat.succ_mul]; exact Nat.mul_le_mul_right d h)
    · exact .inl (Nat.mul_le_mul_right d h)
  unfold Nat.dist
  rcases roundHalfEven_cases n d with ⟨hdown, hhalf⟩ | ⟨hup, hhalf⟩
  · rw [hdown]
    omega
  · rw [hup, Nat.succ_mul]
    omega

theorem roundHalfEven_mul_right (n d : Nat) {k : Nat} (hk : 0 < k) :
    roundHalfEven (n * k) (d * k) = roundHalfEven n d := by
  have hbelow : 2 * (n % d * k) < d * k ↔ 2 * (n % d) < d := by
    rw [← Nat.mul_assoc]
    exact Nat.mul_lt_mul_right hk
  have habove : d * k < 2 * (n % d * k) ↔ d < 2 * (n % d) := by
    rw [← Nat.mul_assoc]
    exact Nat.mul_lt_mul_right hk
  unfold roundHalfEven
  simp only [Nat.mul_div_mul_right n d hk, Nat.mul_mod_mul_right, hbelow, habove]

/-! ## Units -/

/-- The units of a double, if there were no greatest: a number of 53 binary places with zeros behind it. -/
def IsMagnitude (w : Nat) : Prop := ∃ m e : Nat, m < 2 ^ 53 ∧ w = m * 2 ^ e

def roundedUnits (n d : Nat) : Nat := roundHalfEven n (d * spacing (n / d)) * spacing (n / d)

theorem roundedUnits_mul_right (n d : Nat) {k : Nat} (hk : 0 < k) :
    roundedUnits (n * k) (d * k) = roundedUnits n d := by
  unfold roundedUnits
  rw [Nat.mul_div_mul_right n d hk, Nat.mul_right_comm d k, roundHalfEven_mul_right _ _ hk]

theorem roundedUnits_near_multiple (n : Nat) {d w : Nat} (hd : 0 < d) (hw : spacing (n / d) ∣ w) :
    Nat.dist (roundedUnits n d * d) n ≤ Nat.dist (w * d) n := by
  obtain ⟨k, rfl⟩ := hw
  have h := roundHalfEven_near n (d * spacing (n / d)) k (Nat.mul_pos hd (spacing_pos _))
  have hstep : ∀ x, x * spacing (n / d) * d = x * (d * spacing (n / d)) := fun x => by
    rw [Nat.mul_assoc, Nat.mul_comm (spacing _) d]
  unfold roundedUnits
  rwa [Nat.mul_comm (spacing _) k, hstep, hstep]

/-- **No double is nearer** to a quotient than the rounded one.  The coarser doubles and those of its own spacing are
multiples that it was chosen among; the finer ones are below the power of two that the quotient reaches, which is such
a multiple. -/
theorem roundedUnits_near (n : Nat) {d w : Nat} (hd : 0 < d) (hw : IsMagnitude w) :
    Nat.dist (roundedUnits n d * d) n ≤ Nat.dist (w * d) n := by
  obtain ⟨m, e, hm, rfl⟩ := hw
  by_cases hfine : e < (n / d).log2 - 52
  · have hquotient : n / d ≠ 0 := by
      intro hzero
      have hlog : (0 : Nat).log2 = 0 := by decide
      rw [hzero, hlog] at hfine
      omega
    have hreached : 2 ^ (n / d).log2 * d ≤ n :=
      (Nat.mul_le_mul_right d (Nat.log2_self_le hquotient)).trans (Nat.div_mul_le_self n d)
    have hless : m * 2 ^ e ≤ 2 ^ (n / d).log2 :=
      calc m * 2 ^ e ≤ 2 ^ 53 * 2 ^ e := Nat.mul_le_mul_right _ hm.le
        _ = 2 ^ (53 + e) := (Nat.pow_add 2 53 e).symm
        _ ≤ 2 ^ (n / d).log2 := Nat.pow_le_pow_right (by decide) (by omega)
    have hmultiple := roundedUnits_near_multiple n hd (Nat.pow_dvd_pow 2 (Nat.sub_le (n / d).log2 52))
    have hfar : m * 2 ^ e * d ≤ 2 ^ (n / d).log2 * d := Nat.mul_le_mul_right d hless
    refine hmultiple.trans ?_
    rw [Nat.dist_eq_sub_of_le hreached, Nat.dist_eq_sub_of_le (hfar.trans hreached)]
    exact Nat.sub_le_sub_left hfar n
  · exact roundedUnits_near_multiple n hd ((Nat.pow_dvd_pow 2 (Nat.le_of_not_lt hfine)).mul_left m)

/-- The rounded units are a double's: rounding up may need a place more, which is then a zero. -/
theorem isMagnitude_roundedUnits (n d : Nat) : IsMagnitude (roundedUnits n d) := by
  have hbelow : n / (d * spacing (n / d)) < 2 ^ 53 := by
    rw [← Nat.div_div_eq_div_mul]
    refine Nat.div_lt_of_lt_mul (Nat.lt_of_lt_of_le Nat.lt_log2_self ?_)
    unfold spacing
    rw [Nat.pow_eq, ← Nat.pow_add]
    exact Nat.pow_le_pow_right (by decide) (by omega)
  have hplaces : roundHalfEven n (d * spacing (n / d)) ≤ 2 ^ 53 := by
    rcases roundHalfEven_cases n (d * spacing (n / d)) with ⟨hdown, -⟩ | ⟨hup, -⟩
    · exact hdown ▸ hbelow.le
    · exact hup ▸ hbelow
  rcases Nat.lt_or_eq_of_le hplaces with h | h
  · exact ⟨_, (n / d).log2 - 52, h, rfl⟩
  · refine ⟨2 ^ 52, (n / d).log2 - 52 + 1, by decide, ?_⟩
    unfold roundedUnits
    rw [h, Nat.pow_succ, Nat.mul_assoc, Nat.mul_comm 2]
    rfl

theorem roundedUnits_self {n d w : Nat} (hd : 0 < d) (hw : IsMagnitude w) (h : w * d = n) : roundedUnits n d = w := by
  have hnear := roundedUnits_near n hd hw
  rw [h, Nat.dist_self, Nat.le_zero] at hnear
  exact Nat.eq_of_mul_eq_mul_right hd ((Nat.eq_of_dist_eq_zero hnear).trans h.symm)

theorem le_roundedUnits {n d w : Nat} (hd : 0 < d) (hw : IsMagnitude w) (h : w * d ≤ n) : w ≤ roundedUnits n d := by
  have hnear := roundedUnits_near n hd hw
  rw [Nat.dist_eq_sub_of_le h] at hnear
  refine Nat.le_of_mul_le_mul_right ?_ hd
  unfold Nat.dist at hnear
  omega

theorem roundedUnits_le {n d w : Nat} (hd : 0 < d) (hw : IsMagnitude w) (h : n ≤ w * d) : roundedUnits n d ≤ w := by
  have hnear := roundedUnits_near n hd hw
  rw [Nat.dist_eq_sub_of_le_right h] at hnear
  refine Nat.le_of_mul_le_mul_right ?_ hd
  unfold Nat.dist at hnear
  omega

theorem roundedUnits_eq_zero {n d : Nat} (h : 2 * n < d) : roundedUnits n d = 0 := by
  have hnear := roundedUnits_near n (w := 0) (by omega : 0 < d) ⟨0, 0, by decide, rfl⟩
  rw [Nat.zero_mul, Nat.dist_zero_left] at hnear
  by_contra hpos
  have hunit : 1 * d ≤ roundedUnits n d * d := Nat.mul_le_mul_right d (Nat.pos_of_ne_zero hpos)
  unfold Nat.dist at hnear
  omega

/-! ## Doubles by their units -/

theorem cast_unitsInOne : (unitsInOne : ℚ) = 2 ^ (1074 : ℤ) := by
  unfold unitsInOne
  generalize h : 1074 = n
  rw [Nat.pow_eq, Nat.cast_pow, Nat.cast_ofNat, ← zpow_natCast, ← h]
  rfl

theorem cast_unitsInOne_pos : (0 : ℚ) < unitsInOne := Nat.cast_pos.2 unitsInOne_pos

theorem units_of_places (m e : ℕ) : ((m * 2 ^ e : ℕ) : ℚ) / unitsInOne = m * 2 ^ ((e : ℤ) - 1074) := by
  rw [cast_unitsInOne, zpow_sub₀ two_ne_zero, zpow_natCast, Nat.cast_mul, Nat.cast_pow, Nat.cast_ofNat, mul_div_assoc]

/-- Doubles are the rationals with a double's units, short of infinity. -/
theorem isDouble_iff {x : ℚ} :
    IsDouble x ↔ ∃ w, IsMagnitude w ∧ w < overflowUnits ∧ |x| = w / unitsInOne := by
  obtain ⟨top, htop, hoverflow⟩ : ∃ top : ℕ, top = 2045 ∧ overflowUnits = 2 ^ 53 * 2 ^ top :=
    ⟨_, rfl, by decide +kernel⟩
  constructor
  · rintro ⟨m, e, hm, hleast, hgreatest, rfl⟩
    obtain ⟨k, hk⟩ := Int.eq_ofNat_of_zero_le (show 0 ≤ e + 1074 by omega)
    have hplaces : m.natAbs < 2 ^ 53 := by
      rw [Int.abs_eq_natAbs] at hm
      exact_mod_cast hm
    refine ⟨m.natAbs * 2 ^ k, ⟨m.natAbs, k, hplaces, rfl⟩, ?_, ?_⟩
    · rw [hoverflow]
      exact Nat.mul_lt_mul_of_lt_of_le hplaces (Nat.pow_le_pow_right (by decide) (by omega)) (two_pow_pos top)
    · have he : (k : ℤ) - 1074 = e := by omega
      rw [units_of_places, he, Nat.cast_natAbs, Int.cast_abs, abs_mul, abs_of_pos (zpow_pos (two_pos : (0 : ℚ) < 2) e)]
  · rintro ⟨_, ⟨m, e, hm, rfl⟩, hw, hx⟩
    obtain ⟨m, e, hm, he, hw⟩ : ∃ m' e' : ℕ, m' < 2 ^ 53 ∧ e' ≤ top ∧ m * 2 ^ e = m' * 2 ^ e' := by
      by_cases he : e ≤ top
      · exact ⟨m, e, hm, he, rfl⟩
      · have hsplit : m * 2 ^ e = m * 2 ^ (e - top) * 2 ^ top := by
          rw [Nat.mul_assoc, ← Nat.pow_add, Nat.sub_add_cancel (by omega)]
        rw [hsplit, hoverflow] at hw
        exact ⟨m * 2 ^ (e - top), top, Nat.lt_of_mul_lt_mul_right hw, le_rfl, hsplit⟩
    rw [hw, units_of_places] at hx
    have hbound : |((m : ℤ))| < 2 ^ 53 := by
      rw [Nat.abs_cast]
      exact_mod_cast hm
    rcases abs_choice x with h | h
    · exact ⟨m, e - 1074, hbound, by omega, by omega, by rw [← h, hx, Int.cast_natCast]⟩
    · exact ⟨-m, e - 1074, by rwa [abs_neg], by omega, by omega, by
        rw [Int.cast_neg, Int.cast_natCast, neg_mul, ← hx, h, neg_neg]⟩

/-! ## Rounding a ratio -/

theorem ofRatio_eq (negative : Bool) (n d : Nat) :
    ofRatio negative n d =
      if overflowUnits ≤ roundedUnits (n * unitsInOne) d then .infinite negative
      else .finite negative (roundedUnits (n * unitsInOne) d) := rfl

theorem ofRatio_congr (negative : Bool) {n d n' d' : Nat} (hd : 0 < d) (hd' : 0 < d') (h : n * d' = n' * d) :
    ofRatio negative n d = ofRatio negative n' d' := by
  have hunits : roundedUnits (n * unitsInOne) d = roundedUnits (n' * unitsInOne) d' :=
    calc roundedUnits (n * unitsInOne) d = roundedUnits (n * unitsInOne * d') (d * d') :=
          (roundedUnits_mul_right _ _ hd').symm
      _ = roundedUnits (n' * unitsInOne * d) (d' * d) := by
          rw [Nat.mul_right_comm, h, Nat.mul_right_comm n', Nat.mul_comm d]
      _ = roundedUnits (n' * unitsInOne) d' := roundedUnits_mul_right _ _ hd
  rw [ofRatio_eq, ofRatio_eq, hunits]

theorem abs_eq_num_div_den (q : ℚ) : |q| = q.num.natAbs / q.den := by
  rw [Nat.cast_natAbs, Int.cast_abs, ← Nat.abs_cast q.den, ← abs_div, Rat.num_div_den]

theorem nearest?_eq_some_iff {q y : ℚ} :
    nearest? q = some y ↔
      roundedUnits (q.num.natAbs * unitsInOne) q.den < overflowUnits ∧
        y = signFactor (decide (q < 0)) * (roundedUnits (q.num.natAbs * unitsInOne) q.den / unitsInOne) := by
  unfold nearest? ofRat
  rw [ofRatio_eq]
  split
  · next h => exact ⟨fun h' => (by cases h'), fun h' => absurd h (by omega)⟩
  · next h =>
    rw [value?_finite, Option.some_inj]
    exact ⟨fun h' => ⟨by omega, h'.symm⟩, fun h' => h'.2.symm⟩

/-- A ratio with a sign is rounded as the rational that it is; only the sign of zero is the ratio's own. -/
theorem value?_ofRatio (negative : Bool) (n : Nat) {d : Nat} (hd : 0 < d) :
    (ofRatio negative n d).value? = nearest? (signFactor negative * (n / d)) := by
  have hdcast : (0 : ℚ) < d := Nat.cast_pos.2 hd
  generalize hq : signFactor negative * ((n : ℚ) / d) = q
  have habs : |q| = n / d := by
    rw [← hq, abs_mul, abs_signFactor, one_mul, abs_of_nonneg (by positivity)]
  have hratio : n * q.den = q.num.natAbs * d := by
    rw [abs_eq_num_div_den, div_eq_div_iff (Nat.cast_pos.2 q.den_pos).ne' hdcast.ne'] at habs
    exact_mod_cast habs.symm
  unfold nearest? ofRat
  rw [← ofRatio_congr _ hd q.den_pos hratio]
  by_cases hn : n = 0
  · have hzero : roundedUnits (n * unitsInOne) d = 0 := by
      rw [hn, Nat.zero_mul]
      exact roundedUnits_self hd ⟨0, 0, by decide, rfl⟩ (Nat.zero_mul d)
    have hfinite : ¬overflowUnits ≤ 0 := Nat.not_le.2 overflowUnits_pos
    have hvalue : ∀ sign, (ofRatio sign n d).value? = some 0 := fun sign => by
      rw [ofRatio_eq, hzero, if_neg hfinite, value?_finite, Nat.cast_zero, zero_div, mul_zero]
    rw [hvalue, hvalue]
  · have hmagnitude : (0 : ℚ) < n / d := div_pos (Nat.cast_pos.2 (Nat.pos_of_ne_zero hn)) hdcast
    have hsign : decide (q < 0) = negative := by
      rw [← hq]
      cases negative
      · exact decide_eq_false (by simpa [signFactor] using hmagnitude.le)
      · exact decide_eq_true (by simpa [signFactor] using hmagnitude)
    rw [hsign]

/-! ## The nearest double -/

variable {q y z : ℚ}

theorem isDouble_of_nearest? (h : nearest? q = some y) : IsDouble y := by
  obtain ⟨hfinite, rfl⟩ := nearest?_eq_some_iff.1 h
  refine isDouble_iff.2 ⟨_, isMagnitude_roundedUnits _ _, hfinite, ?_⟩
  rw [abs_mul, abs_signFactor, one_mul, abs_of_nonneg (div_nonneg (Nat.cast_nonneg _) (Nat.cast_nonneg _))]

theorem abs_units_sub (u n : Nat) {d : Nat} (hd : 0 < d) :
    |(u : ℚ) / unitsInOne - n / d| = Nat.dist (u * d) (n * unitsInOne) / (unitsInOne * d) := by
  have hdist : ∀ a b : Nat, ((Nat.dist a b : Nat) : ℚ) = |(a : ℚ) - b| := fun a b => by
    rcases le_total a b with h | h
    · rw [Nat.dist_eq_sub_of_le h, Nat.cast_sub h, abs_sub_comm, abs_of_nonneg (sub_nonneg.2 (Nat.cast_le.2 h))]
    · rw [Nat.dist_eq_sub_of_le_right h, Nat.cast_sub h, abs_of_nonneg (sub_nonneg.2 (Nat.cast_le.2 h))]
  have hdcast : (0 : ℚ) < d := Nat.cast_pos.2 hd
  have hscale : (0 : ℚ) < unitsInOne * d := mul_pos cast_unitsInOne_pos hdcast
  rw [div_sub_div _ _ cast_unitsInOne_pos.ne' hdcast.ne', abs_div, abs_of_pos hscale, hdist, Nat.cast_mul, Nat.cast_mul,
    mul_comm (unitsInOne : ℚ) n]

/-- **The nearest double is nearest**: none is closer to the rational. -/
theorem nearest?_near (h : nearest? q = some y) (hz : IsDouble z) : |y - q| ≤ |z - q| := by
  obtain ⟨-, rfl⟩ := nearest?_eq_some_iff.1 h
  obtain ⟨w, hw, -, hwz⟩ := isDouble_iff.1 hz
  generalize hu : roundedUnits (q.num.natAbs * unitsInOne) q.den = u
  have hmagnitudes : |(u : ℚ) / unitsInOne - (|q|)| ≤ |(w : ℚ) / unitsInOne - (|q|)| := by
    rw [abs_eq_num_div_den q, abs_units_sub _ _ q.den_pos, abs_units_sub _ _ q.den_pos, ← hu]
    have hnear := roundedUnits_near (q.num.natAbs * unitsInOne) q.den_pos hw
    have hscale : (0 : ℚ) ≤ unitsInOne * q.den := mul_nonneg (Nat.cast_nonneg _) (Nat.cast_nonneg _)
    exact div_le_div_of_nonneg_right (Nat.cast_le.2 hnear) hscale
  calc |signFactor (decide (q < 0)) * (u / unitsInOne) - q|
      = |signFactor (decide (q < 0)) * (u / unitsInOne - |q|)| := by rw [mul_sub, signFactor_mul_abs]
    _ = |(u : ℚ) / unitsInOne - (|q|)| := by rw [abs_mul, abs_signFactor, one_mul]
    _ ≤ |(|z|) - (|q|)| := by rwa [hwz]
    _ ≤ |z - q| := abs_abs_sub_abs_le z q

theorem nearest?_self (h : IsDouble q) : nearest? q = some q := by
  obtain ⟨w, hw, hfinite, habs⟩ := isDouble_iff.1 h
  have hunits : w * q.den = q.num.natAbs * unitsInOne := by
    rw [abs_eq_num_div_den, div_eq_div_iff (Nat.cast_pos.2 q.den_pos).ne' cast_unitsInOne_pos.ne'] at habs
    exact_mod_cast habs.symm
  have hself := roundedUnits_self q.den_pos hw hunits
  rw [nearest?_eq_some_iff, hself, ← habs, signFactor_mul_abs]
  exact ⟨hfinite, rfl⟩

theorem isMagnitude_overflowUnits : IsMagnitude overflowUnits := by
  unfold overflowUnits
  generalize 2098 = n
  exact ⟨1, n, by decide, (Nat.one_mul _).symm⟩

theorem nearest?_large (h : (overflowUnits : ℚ) / unitsInOne ≤ |q|) : nearest? q = none := by
  have hpast : overflowUnits * q.den ≤ q.num.natAbs * unitsInOne := by
    rw [abs_eq_num_div_den, div_le_div_iff₀ cast_unitsInOne_pos (Nat.cast_pos.2 q.den_pos)] at h
    exact_mod_cast h
  refine Option.eq_none_iff_forall_ne_some.2 fun y hy => ?_
  have hfinite := (nearest?_eq_some_iff.1 hy).1
  have hrounded := le_roundedUnits q.den_pos isMagnitude_overflowUnits hpast
  omega

theorem lt_of_nearest?_eq_none (h : nearest? q = none) (hz : IsDouble z) : |z| < |q| := by
  obtain ⟨w, hw, hfinite, hwz⟩ := isDouble_iff.1 hz
  by_contra hle
  have hunits : q.num.natAbs * unitsInOne ≤ w * q.den := by
    rw [not_lt, hwz, abs_eq_num_div_den, div_le_div_iff₀ (Nat.cast_pos.2 q.den_pos) cast_unitsInOne_pos] at hle
    exact_mod_cast hle
  have hrounded := roundedUnits_le q.den_pos hw hunits
  have hsome := nearest?_eq_some_iff.2 ⟨lt_of_le_of_lt hrounded hfinite, rfl⟩
  rw [h] at hsome
  cases hsome

theorem nearest?_small (h : |q| < 1 / (2 * unitsInOne)) : nearest? q = some 0 := by
  have hhalf : 2 * (q.num.natAbs * unitsInOne) < q.den := by
    rw [abs_eq_num_div_den, div_lt_div_iff₀ (Nat.cast_pos.2 q.den_pos) (mul_pos two_pos cast_unitsInOne_pos)] at h
    rw [Nat.mul_left_comm, ← Nat.one_mul q.den]
    exact_mod_cast h
  rw [nearest?_eq_some_iff, roundedUnits_eq_zero hhalf, Nat.cast_zero, zero_div, mul_zero]
  exact ⟨overflowUnits_pos, rfl⟩

end Binary64
end PageQuery
