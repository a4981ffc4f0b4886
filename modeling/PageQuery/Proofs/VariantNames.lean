import PageQuery.Filter.Operand
import PageQuery.Proofs.Numerals
/-!
# Variants by name

A text names a variant between its blanks and without regard to the case of A to Z, and where several variants have the
name, the first of them is meant.  So a variant without blanks at its ends always names a variant, itself unless one
before it differs from it in case alone.  What else the variants are called does not matter, digits not even: a place in
the list is looked at only where no variant has the name.
-/
namespace PageQuery

/-! ## Equal up to case -/

theorem sameAscii_self (s : String) : sameAscii s s = true := beq_self_eq_true _

theorem length_eq_of_sameAscii {s t : String} (h : sameAscii s t = true) : s.toList.length = t.toList.length := by
  have hlower : (asciiLower s).toList.length = (asciiLower t).toList.length := by rw [eq_of_beq h]
  simpa [asciiLower] using hlower

theorem trimChars_sublist (cs : List Char) : (trimChars cs).Sublist cs := by
  have hend : (trimChars cs).Sublist (cs.dropWhile isBlank).reverse.reverse := (List.dropWhile_sublist isBlank).reverse
  rw [List.reverse_reverse] at hend
  exact hend.trans (List.dropWhile_sublist isBlank)

theorem sameAscii_trim_iff {s : String} : sameAscii s (trim s) = true ↔ trim s = s := by
  constructor
  · intro h
    have hlength := length_eq_of_sameAscii h
    unfold trim at hlength ⊢
    rw [String.toList_ofList] at hlength
    rw [(trimChars_sublist s.toList).eq_of_length hlength.symm, String.ofList_toList]
  · intro h
    rw [h]
    exact sameAscii_self s

/-! ## Names and places -/

namespace EnumType
variable {e : EnumType} {name v w : String}

/-- The variant is the first that has the name, up to the case of A to Z. -/
def FirstNamed (e : EnumType) (name v : String) : Prop :=
  sameAscii v name = true ∧ ∃ before after, e.variants = before ++ v :: after ∧ ∀ u ∈ before, sameAscii u name = false

theorem find?_eq_some_iff_firstNamed : e.variants.find? (sameAscii · name) = some v ↔ e.FirstNamed name v := by
  rw [List.find?_eq_some_iff_append]
  simp only [FirstNamed, Bool.not_eq_true']

theorem FirstNamed.unique (hv : e.FirstNamed name v) (hw : e.FirstNamed name w) : v = w := by
  rw [← find?_eq_some_iff_firstNamed] at hv hw
  exact Option.some.inj (hv.symm.trans hw)

/-- **A text that is a variant's name** between its blanks means the first variant of the name, whatever number the text
may spell. -/
theorem resolve?_named {token : String} (hv : v ∈ e.variants) (hname : sameAscii v (trim token) = true) :
    ∃ w, e.FirstNamed (trim token) w ∧ e.resolve? token = some w := by
  have hsome : (e.variants.find? (sameAscii · (trim token))).isSome = true := by
    rw [List.find?_isSome]
    exact ⟨v, hv, hname⟩
  obtain ⟨w, hw⟩ := Option.isSome_iff_exists.1 hsome
  refine ⟨w, find?_eq_some_iff_firstNamed.1 hw, ?_⟩
  unfold resolve?
  rw [hw]

theorem resolve?_place {token : String} (hnone : ∀ u ∈ e.variants, sameAscii u (trim token) = false) :
    e.resolve? token = some w ↔
      ∃ n : Int64, WholeText n.toInt (trim token).toList ∧ 0 ≤ n.toInt ∧ e.variants[n.toInt.toNat]? = some w := by
  have hfind : e.variants.find? (sameAscii · (trim token)) = none := by
    rw [List.find?_eq_none]
    exact fun u hu => Bool.eq_false_iff.1 (hnone u hu)
  unfold resolve?
  rw [hfind]
  simp only [← readSigned_eq_ok]
  cases readSigned (trim token) with
  | error fault => exact iff_of_false (fun h => by cases h) (fun ⟨_, h, _⟩ => by cases h)
  | ok n =>
    simp only [byOrdinal?, Except.ok.injEq, exists_eq_left', Option.ite_none_right_eq_some]

end EnumType

theorem Literal.toVariant_text {e : EnumType} {token v : String} :
    (Literal.text token).toVariant e = .ok v ↔ e.resolve? token = some v := by
  unfold toVariant
  simp only
  cases e.resolve? token with
  | none => exact ⟨fun h => (by cases h), fun h => (by cases h)⟩
  | some w => exact ⟨fun h => congrArg some (Except.ok.inj h), fun h => congrArg Except.ok (Option.some.inj h)⟩

/-- **A variant is selected by its name just if it is the first that has it.**  A variant without blanks at its ends
always selects one, the first of those that equal it up to the case of A to Z.  That is the variant itself just if none
before it is such, whatever the others are called.  A variant with blanks at its ends is selected by its text only as the
place that the text spells, and only where no variant is called so. -/
theorem variant_selected_iff_first {e : EnumType} {v : String} (hv : v ∈ e.variants) :
    (trim v = v → ∃ w, e.FirstNamed v w ∧ e.resolve? v = some w ∧ (Literal.text v).toVariant e = .ok w) ∧
      (e.resolve? v = some v ↔
        (trim v = v ∧ ∃ before after, e.variants = before ++ v :: after ∧ ∀ u ∈ before, sameAscii u v = false) ∨
          (∀ u ∈ e.variants, sameAscii u (trim v) = false) ∧
            ∃ n : Int64, WholeText n.toInt (trim v).toList ∧ 0 ≤ n.toInt ∧ e.variants[n.toInt.toNat]? = some v) ∧
      ((Literal.text v).toVariant e = .ok v ↔ e.resolve? v = some v) := by
  refine ⟨fun hends => ?_, ?_, Literal.toVariant_text⟩
  · obtain ⟨w, hw, hresolve⟩ := e.resolve?_named hv (sameAscii_trim_iff.2 hends)
    rw [hends] at hw
    exact ⟨w, hw, hresolve, Literal.toVariant_text.2 hresolve⟩
  · by_cases hnamed : ∃ u ∈ e.variants, sameAscii u (trim v) = true
    · obtain ⟨u, hu, hname⟩ := hnamed
      obtain ⟨w, hw, hresolve⟩ := e.resolve?_named hu hname
      rw [hresolve, Option.some_inj]
      constructor
      · rintro rfl
        have hends : trim w = w := sameAscii_trim_iff.1 hw.1
        rw [hends] at hw
        exact .inl ⟨hends, hw.2⟩
      · rintro (⟨hends, hfirst⟩ | ⟨hnone, -⟩)
        · rw [hends] at hw
          exact hw.unique ⟨sameAscii_self v, hfirst⟩
        · exact absurd hname (Bool.eq_false_iff.1 (hnone u hu))
    · have hnone : ∀ u ∈ e.variants, sameAscii u (trim v) = false := fun u hu =>
        Bool.eq_false_iff.2 fun hname => hnamed ⟨u, hu, hname⟩
      rw [EnumType.resolve?_place hnone]
      constructor
      · exact fun hplace => .inr ⟨hnone, hplace⟩
      · rintro (⟨hends, -⟩ | ⟨-, hplace⟩)
        · exact absurd ⟨v, hv, sameAscii_trim_iff.2 hends⟩ hnamed
        · exact hplace

namespace Sample

def tastes : EnumType := ⟨"taste", ["Sweet", "0", "sour", "SWEET"]⟩

def sizes : EnumType := ⟨"size", ["small", "large", " 1"]⟩

end Sample

open Sample in
/-- A variant called by the number of another is selected by its name, as is the first of two that differ in case. -/
theorem zero_and_sweet_selected :
    ("0" ∈ tastes.variants ∧ tastes.resolve? "0" = some "0") ∧
      ("Sweet" ∈ tastes.variants ∧ (Literal.text "Sweet").toVariant tastes = .ok "Sweet") := by
  have hzero : "0" ∈ tastes.variants := by decide
  have hsweet : "Sweet" ∈ tastes.variants := by decide
  refine ⟨⟨hzero, ?_⟩, hsweet, ?_⟩
  · apply (variant_selected_iff_first hzero).2.1.2
    exact .inl ⟨by decide, ["Sweet"], ["sour", "SWEET"], rfl, by decide⟩
  · apply (variant_selected_iff_first hsweet).2.2.2
    apply (variant_selected_iff_first hsweet).2.1.2
    exact .inl ⟨by decide, [], ["0", "sour", "SWEET"], rfl, by decide⟩

open Sample in
/-- Of two variants that differ in case the second selects the first, and a variant with a blank before it selects the
one at the place that it spells. -/
theorem sweet_and_one_select_others :
    (tastes.variants.Nodup ∧ "SWEET" ∈ tastes.variants ∧ tastes.resolve? "SWEET" = some "Sweet" ∧
        (Literal.text "SWEET").toVariant tastes = .ok "Sweet") ∧
      (sizes.variants.Nodup ∧ " 1" ∈ sizes.variants ∧ sizes.resolve? " 1" = some "large" ∧
        (Literal.text " 1").toVariant sizes = .ok "large") ∧
      ¬∀ (e : EnumType) (v : String), e.variants.Nodup → v ∈ e.variants →
        e.resolve? v = some v ∧ (Literal.text v).toVariant e = .ok v := by
  have hsweet : tastes.resolve? "SWEET" = some "Sweet" := by decide +kernel
  have hone : sizes.resolve? " 1" = some "large" := by decide +kernel
  refine ⟨⟨by decide, by decide, hsweet, Literal.toVariant_text.2 hsweet⟩,
    ⟨by decide, by decide, hone, Literal.toVariant_text.2 hone⟩, fun hself => ?_⟩
  have hsame := (hself tastes "SWEET" (by decide) (by decide)).1
  rw [hsweet] at hsame
  exact absurd hsame (by decide)

end PageQuery
