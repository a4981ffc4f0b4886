import Mathlib.Order.Bounds.Basic
import PageQuery.Proofs.Serving
/-!
# The arithmetic of pages

A page knows the offset it was asked for, its items and at times a total, which counts at least the items.  How many
pages a total needs is the least number whose rows are as many, for every size.  Whether rows follow is told by adding
the items to the offset: that is right as long as the sum is a word, and where it is not there is no answer at all,
though no rows can follow.
-/
namespace PageQuery
namespace Page

/-! ## How many pages -/

theorem isLeast_shares (t : Nat) {s : Nat} (hs : 0 < s) :
    IsLeast {k | t ≤ k * s} (if t % s = 0 then t / s else t / s + 1) := by
  have hdivision := Nat.div_add_mod t s
  have hrest := Nat.mod_lt t hs
  rw [Nat.mul_comm] at hdivision
  by_cases h : t % s = 0
  · rw [if_pos h]
    constructor
    · show t ≤ t / s * s
      omega
    · intro k hk
      exact Nat.div_le_of_le_mul (Nat.mul_comm k s ▸ hk)
  · rw [if_neg h]
    constructor
    · show t ≤ (t / s + 1) * s
      rw [Nat.add_mul]
      omega
    · intro k hk
      by_contra hless
      have hfewer : k * s ≤ t / s * s := Nat.mul_le_mul_right s (by omega)
      have henough : t ≤ k * s := hk
      omega

theorem toNat_pos {s : UInt64} (hs : s ≠ 0) : 0 < s.toNat := Nat.pos_of_ne_zero fun h => hs (UInt64.toNat_inj.1 h)

/-- The shares of a word are counted without leaving the words: where there is a rest, they are no more than the
word. -/
theorem toNat_shares (t : UInt64) {s : UInt64} (hs : s ≠ 0) :
    (if t % s = 0 then t / s else t / s + 1).toNat =
      if t.toNat % s.toNat = 0 then t.toNat / s.toNat else t.toNat / s.toNat + 1 := by
  have hpos := toNat_pos hs
  have hrest : t % s = 0 ↔ t.toNat % s.toNat = 0 := by rw [← UInt64.toNat_inj, UInt64.toNat_mod, UInt64.toNat_zero]
  by_cases h : t.toNat % s.toNat = 0
  · rw [if_pos h, if_pos (hrest.2 h), UInt64.toNat_div]
  · rw [if_neg h, if_neg (mt hrest.1 h), UInt64.toNat_add, UInt64.toNat_div, UInt64.toNat_one]
    have htotal : 0 < t.toNat := Nat.pos_of_ne_zero fun hzero => h (by rw [hzero, Nat.zero_mod])
    have hsize : 1 < s.toNat := by
      by_contra hone
      have : s.toNat = 1 := by omega
      exact h (by rw [this, Nat.mod_one])
    have hfewer := Nat.div_lt_self htotal hsize
    have hword := t.toNat_lt
    exact Nat.mod_eq_of_lt (by omega)

/-! ## Whether rows follow -/

theorem checkedAdd_eq (a b : UInt64) :
    checkedAdd a b = if a.toNat + b.toNat < 2 ^ 64 then .ok (a + b) else .error .overflow := rfl

theorem hasNext_new {α : Type} (items : List α) (hitems : items.length < 2 ^ 64) (offset t : UInt64) :
    (Page.new items offset (some t)).hasNext =
      if offset.toNat + items.length < 2 ^ 64 then
        .ok (some (decide (offset.toNat + items.length < max t.toNat items.length)))
      else .error .overflow := by
  obtain ⟨raised, hraised, hgreater⟩ := estimatedTotal_new items offset t
  rw [Nat.mod_eq_of_lt hitems] at hgreater
  have hsize : (Page.new items offset (some t)).size.toNat = items.length := by
    show items.length.toUInt64.toNat = _
    rw [Nat.toUInt64_eq, UInt64.toNat_ofNat', Nat.mod_eq_of_lt hitems]
  simp only [hasNext, hraised, checkedAdd_eq, hsize]
  have hoffset : (Page.new items offset (some t)).offset = offset := rfl
  rw [hoffset]
  split
  · next hword =>
    have hstop : (offset + (Page.new items offset (some t)).size).toNat = offset.toNat + items.length := by
      rw [UInt64.toNat_add, hsize, Nat.mod_eq_of_lt hword]
    simp only [Except.map, UInt64.lt_iff_toNat_lt, hstop, hgreater]
  · rfl

/-- **What a page says of its total.**  It says nothing just where there is none.  Otherwise the pages of a size are the
least number that the total fits into; and whether rows follow is told right just if the end of the page is a word,
while asking it of a page that ends past the words has no answer, whatever the total.  (A list in memory has fewer items
than there are words.) -/
theorem page_arithmetic {α : Type} (items : List α) (hitems : items.length < 2 ^ 64) (offset : UInt64)
    (total : Option UInt64) :
    let page := Page.new items offset total
    (page.hasNext = .ok none ↔ total = none) ∧
      ∀ t, total = some t →
        let greater := max t.toNat items.length
        (page.hasNext = .ok (some (decide (offset.toNat + items.length < greater))) ↔
            offset.toNat + items.length < 2 ^ 64) ∧
          (2 ^ 64 ≤ offset.toNat + items.length → page.hasNext = .error .overflow) ∧
          ∀ s : UInt64, s ≠ 0 →
            ∃ k, page.totalPages s = some k ∧ IsLeast {k | greater ≤ k * s.toNat} k.toNat := by
  intro page
  constructor
  · cases total with
    | none => exact iff_of_true rfl rfl
    | some t =>
      refine iff_of_false ?_ (Option.some_ne_none t)
      rw [hasNext_new items hitems]
      split <;> exact fun h => by cases h
  rintro t rfl greater
  obtain ⟨raised, hraised, hgreater⟩ := estimatedTotal_new items offset t
  rw [Nat.mod_eq_of_lt hitems] at hgreater
  have hnext := hasNext_new items hitems offset t
  refine ⟨?_, fun hpast => ?_, fun s hs => ?_⟩
  · rw [hnext]
    split
    · next hword => exact iff_of_true rfl hword
    · next hpast => exact iff_of_false (fun h => by cases h) hpast
  · rw [hnext, if_neg (Nat.not_lt.2 hpast)]
  · refine ⟨if raised % s = 0 then raised / s else raised / s + 1, ?_, ?_⟩
    · unfold totalPages
      rw [if_neg hs, hraised, Option.map_some]
    · rw [toNat_shares raised hs, hgreater]
      exact isLeast_shares greater (toNat_pos hs)

/-- The ninth and tenth of 25 rows: more follow, and three pages of ten hold them all. -/
theorem ninth_and_tenth_of_25 :
    [(), ()].length < 2 ^ 64 ∧ (Page.new [(), ()] 8 (some 25)).hasNext = .ok (some true) ∧
      ∃ k, (Page.new [(), ()] 8 (some 25)).totalPages 10 = some k ∧ IsLeast {k | 25 ≤ k * 10} k.toNat := by
  obtain ⟨-, harithmetic⟩ := page_arithmetic [(), ()] (by decide) 8 (some 25)
  obtain ⟨hnext, -, hpages⟩ := harithmetic 25 rfl
  exact ⟨by decide, hnext.2 (by decide), hpages 10 (by decide)⟩

/-- At the last offset of all there is no telling whether more than one item is there, though five rows are all there
are. -/
theorem no_answer_after_last_offset :
    let page := Page.new [()] 18446744073709551615 (some 5)
    page.hasNext = .error .overflow ∧ ¬page.offset.toNat + page.items.length < max 5 page.items.length := by
  decide

end Page
end PageQuery
