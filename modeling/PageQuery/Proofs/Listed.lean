import PageQuery.Proofs.Membership
/-!
# The values that a list on a collection asks for

On a collection a list is one of literals, each read as a value of the collection.  Literals may spell one value in
several ways; it is asked for once, where the first of them stands, and the rows of a group are to show as many
different values as remain.  So the order of the literals and how often each is written do not matter.  A list with an
element that cannot be read is refused for the first such element, and nothing of it is bound.
-/
namespace PageQuery

/-! ## Each value once -/

/-- `kept` has the values of `vs` that are not the same as an earlier one, in their order. -/
structure FirstOf (vs kept : List Value) : Prop where
  sublist : kept.Sublist vs
  different : kept.Pairwise fun v w => v.same w = false
  covers : ∀ v ∈ vs, ∃ w ∈ kept, v.same w = true
  first : ∀ w ∈ kept, ∃ before after, vs = before ++ w :: after ∧ ∀ v ∈ before, w.same v = false

section
variable {t : ValueType} {u v w : Value}

theorem ValueType.Holds.same_self (hv : t.Holds v) : v.same v = true := (exact_plain.rank_eq_iff hv hv).1 rfl

theorem ValueType.Holds.same_comm (hv : t.Holds v) (hw : t.Holds w) : v.same w = w.same v := by
  rw [Bool.eq_iff_iff, ← exact_plain.rank_eq_iff hv hw, ← exact_plain.rank_eq_iff hw hv, eq_comm]

theorem ValueType.Holds.same_trans (hu : t.Holds u) (hv : t.Holds v) (hw : t.Holds w) (huv : u.same v = true)
    (hvw : v.same w = true) : u.same w = true :=
  (exact_plain.rank_eq_iff hu hw).1
    (((exact_plain.rank_eq_iff hu hv).2 huv).trans ((exact_plain.rank_eq_iff hv hw).2 hvw))

theorem FirstOf.snoc {us kept : List Value} (h : FirstOf us kept) (hus : ∀ u ∈ us, t.Holds u) (hv : t.Holds v) :
    FirstOf (us ++ [v]) (if kept.any v.same then kept else kept ++ [v]) := by
  have hkept : ∀ w ∈ kept, t.Holds w := fun w hw => hus w (h.sublist.subset hw)
  have hfirst : ∀ w ∈ kept, ∃ before after, us ++ [v] = before ++ w :: after ∧ ∀ x ∈ before, w.same x = false := by
    intro w hw
    obtain ⟨before, after, hsplit, hbefore⟩ := h.first w hw
    exact ⟨before, after ++ [v], by rw [hsplit, List.append_assoc, List.cons_append], hbefore⟩
  by_cases hany : kept.any v.same = true
  · rw [if_pos hany]
    refine ⟨h.sublist.trans (List.sublist_append_left us [v]), h.different, fun x hx => ?_, hfirst⟩
    rcases List.mem_append.1 hx with hx | hx
    · exact h.covers x hx
    · rw [List.mem_singleton.1 hx]
      exact List.any_eq_true.1 hany
  · have hnew : ∀ w ∈ kept, v.same w = false := fun w hw =>
      Bool.eq_false_iff.2 fun hsame => hany (List.any_eq_true.2 ⟨w, hw, hsame⟩)
    rw [if_neg hany]
    refine
      { sublist := h.sublist.append (List.Sublist.refl [v])
        different := List.pairwise_append.2 ⟨h.different, List.pairwise_singleton _ v, fun w hw x hx => ?_⟩
        covers := fun x hx => ?_
        first := fun x hx => ?_ }
    · rw [List.mem_singleton.1 hx, (hkept w hw).same_comm hv]
      exact hnew w hw
    · rcases List.mem_append.1 hx with hx | hx
      · obtain ⟨w, hw, hsame⟩ := h.covers x hx
        exact ⟨w, List.mem_append_left [v] hw, hsame⟩
      · rw [List.mem_singleton.1 hx]
        exact ⟨v, List.mem_append_right kept (List.mem_singleton.2 rfl), hv.same_self⟩
    · rcases List.mem_append.1 hx with hx | hx
      · exact hfirst x hx
      · rw [List.mem_singleton.1 hx]
        refine ⟨us, [], rfl, fun u hu => Bool.eq_false_iff.2 fun hsame => ?_⟩
        obtain ⟨w, hw, huw⟩ := h.covers u hu
        have hvw := hv.same_trans (hus u hu) (hkept w hw) hsame huw
        rw [hnew w hw] at hvw
        cases hvw

theorem FirstOf.append : ∀ {vs us kept : List Value}, FirstOf us kept → (∀ v ∈ us ++ vs, t.Holds v) →
    FirstOf (us ++ vs) (vs.foldl (fun kept v => if kept.any v.same then kept else kept ++ [v]) kept)
  | [], us, kept, h, _ => by rwa [List.append_nil]
  | v :: vs, us, kept, h, hall => by
    have hsplit : us ++ v :: vs = us ++ [v] ++ vs := by simp
    rw [hsplit] at hall ⊢
    have hus : ∀ u ∈ us, t.Holds u := fun u hu => hall u (by simp [hu])
    have hv : t.Holds v := hall v (by simp)
    exact (h.snoc hus hv).append hall

theorem firstOf_distinct {vs : List Value} (hvs : ∀ v ∈ vs, t.Holds v) : FirstOf vs (Value.distinct vs) := by
  have hnil : FirstOf [] [] :=
    { sublist := .slnil, different := .nil, covers := (fun v hv => by cases hv), first := (fun w hw => by cases hw) }
  exact hnil.append hvs

/-- Lists of the same values, in whatever order and however often each, have as many different ones, and the same. -/
theorem distinct_of_mem_iff {vs ws : List Value} (hvs : ∀ v ∈ vs, t.Holds v) (hmem : ∀ v, v ∈ ws ↔ v ∈ vs) :
    (Value.distinct ws).length = (Value.distinct vs).length ∧
      ∀ v ∈ Value.distinct vs, ∃ w ∈ Value.distinct ws, v.same w = true := by
  have hws : ∀ w ∈ ws, t.Holds w := fun w hw => hvs w ((hmem w).1 hw)
  obtain ⟨hnodup, hranks⟩ := ranks_distinct exact_plain hvs
  obtain ⟨hnodup', hranks'⟩ := ranks_distinct exact_plain hws
  constructor
  · have hperm := (List.perm_ext_iff_of_nodup hnodup' hnodup).2 fun x => by
      rw [hranks, hranks']
      simp only [List.mem_map, hmem]
    rw [← List.length_map (f := Dialect.plain.rank), hperm.length_eq, List.length_map]
  · intro v hv
    exact (firstOf_distinct hws).covers v ((hmem v).2 ((firstOf_distinct hvs).sublist.subset hv))

end

/-! ## Elements -/

/-- The fault is that of an invalid criterion, not of a kind of literal that is not supported. -/
def CriterionFault.Invalid (fault : CriterionFault) : Prop := ∀ declared value, fault ≠ .unsupported declared value

namespace Literal

theorem wholeOfDouble_error {x : Binary64} {fault : CriterionFault} (h : wholeOfDouble x = .error fault) :
    fault = .notWhole x := by
  unfold wholeOfDouble at h
  split at h
  · split at h <;> cases h
    rfl
  · cases h
    rfl

theorem finiteOnly_error {x : Binary64} {fault : CriterionFault} (h : finiteOnly x = .error fault) :
    fault = .notFinite x := by
  unfold finiteOnly at h
  split at h <;> cases h
  rfl

theorem toWhole_error {l : Literal} {fault : CriterionFault} (h : l.toWhole = .error fault) : fault.Invalid := by
  intro declared value hfault
  subst hfault
  cases l with
  | integer n => cases h
  | float x => cases wholeOfDouble_error h
  | text s =>
    simp only [toWhole] at h
    split at h
    · cases h
    · split at h
      · cases wholeOfDouble_error h
      · cases h
  | boolean b => cases h

theorem toDouble_error {l : Literal} {fault : CriterionFault} (h : l.toDouble = .error fault) : fault.Invalid := by
  intro declared value hfault
  subst hfault
  cases l with
  | integer n => cases finiteOnly_error h
  | float x => cases finiteOnly_error h
  | text s =>
    simp only [toDouble] at h
    split at h
    · cases finiteOnly_error h
    · cases h
  | boolean b => cases h

theorem toVariant_error {l : Literal} {e : EnumType} {fault : CriterionFault} (h : l.toVariant e = .error fault) :
    fault.Invalid := by
  intro declared value hfault
  subst hfault
  simp only [toVariant] at h
  repeat' split at h
  all_goals cases h

theorem toElement_error {l : Literal} {t : ValueType} {fault : CriterionFault} (h : l.toElement t = .error fault) :
    fault.Invalid := by
  have hmapped : ∀ {α : Type} {x : Except CriterionFault α} {g : α → Value}, x.map g = .error fault →
      x = .error fault := fun {_ x _} hx => by
    cases x with
    | error e => cases hx; rfl
    | ok a => cases hx
  cases t with
  | integer => exact toWhole_error (hmapped h)
  | float => exact toDouble_error (hmapped h)
  | text => cases l <;> cases h <;> exact fun _ _ h => by cases h
  | boolean =>
    have h := hmapped h
    unfold toTruth at h
    split at h <;> cases h
    exact fun _ _ h => by cases h
  | enumerated e => exact toVariant_error (hmapped h)
  | reference entity =>
    cases h
    exact fun _ _ h => by cases h
end Literal

def Criterion.Spells (t : ValueType) (c : Criterion) (v : Value) : Prop := ∃ l, c = .value l ∧ l.toElement t = .ok v

def Criterion.Misspells (t : ValueType) (c : Criterion) (fault : CriterionFault) : Prop :=
  (∃ l, c = .value l ∧ l.toElement t = .error fault) ∨ (∀ l, c ≠ .value l) ∧ fault = .needsLiterals c.kind

theorem elementsOf_ok_iff {t : ValueType} : ∀ {cs : List Criterion} {vs : List Value},
    elementsOf t cs = .ok vs ↔ List.Forall₂ (Criterion.Spells t) cs vs
  | [], vs => by
    rw [List.forall₂_nil_left_iff]
    exact ⟨fun h => (Except.ok.inj h).symm, fun h => congrArg Except.ok h.symm⟩
  | c :: cs, vs => by
    constructor
    · intro h
      obtain ⟨l, w, ws, rfl, hl, hcs, rfl⟩ := elementsOf_cons h
      exact .cons ⟨l, rfl, hl⟩ (elementsOf_ok_iff.1 hcs)
    · intro h
      cases h with
      | cons hc hcs =>
        obtain ⟨l, rfl, hl⟩ := hc
        simp only [elementsOf, hl, elementsOf_ok_iff.2 hcs]
        rfl

theorem elementsOf_error {t : ValueType} {fault : CriterionFault} : ∀ {cs : List Criterion},
    elementsOf t cs = .error fault → ∃ before c after, cs = before ++ c :: after ∧
      (∀ b ∈ before, ∃ v, b.Spells t v) ∧ c.Misspells t fault
  | [], h => by cases h
  | c :: cs, h => by
    by_cases hc : ∃ l, c = .value l
    · obtain ⟨l, rfl⟩ := hc
      cases hl : l.toElement t with
      | error e =>
        simp only [elementsOf, hl] at h
        cases h
        exact ⟨[], .value l, cs, rfl, fun b hb => (by cases hb), .inl ⟨l, rfl, hl⟩⟩
      | ok v =>
        cases hcs : elementsOf t cs with
        | ok vs =>
          simp only [elementsOf, hl, hcs] at h
          cases h
        | error e =>
          simp only [elementsOf, hl, hcs] at h
          cases h
          obtain ⟨before, c, after, rfl, hbefore, hc⟩ := elementsOf_error hcs
          refine ⟨.value l :: before, c, after, rfl, fun b hb => ?_, hc⟩
          rcases List.mem_cons.1 hb with rfl | hb
          · exact ⟨v, l, rfl, hl⟩
          · exact hbefore b hb
    · have hnot : ∀ l, c ≠ .value l := fun l hl => hc ⟨l, hl⟩
      refine ⟨[], c, cs, rfl, fun b hb => (by cases hb), .inr ⟨hnot, ?_⟩⟩
      cases c with
      | value l => exact absurd rfl (hnot l)
      | null | negation | alternatives | numeric | enumerated | boolean | textMatch => cases h; rfl

theorem mem_of_spelled {t : ValueType} {cs : List Criterion} {vs : List Value}
    (h : List.Forall₂ (Criterion.Spells t) cs vs) (v : Value) : v ∈ vs ↔ ∃ c ∈ cs, c.Spells t v := by
  refine mem_iff_of_forall₂ ?_ h v
  rintro c v w ⟨l, rfl, hv⟩ ⟨l', hl', hw⟩
  cases hl'
  exact Except.ok.inj (hv.symm.trans hw)

theorem spelled_of_mem {t : ValueType} {cs : List Criterion} {vs : List Value}
    (h : List.Forall₂ (Criterion.Spells t) cs vs) : ∀ c ∈ cs, ∃ v, c.Spells t v := fun c hc => by
  obtain ⟨v, -, hv⟩ := exists_mem_of_forall₂ h c hc
  exact ⟨v, hv⟩

theorem elementsOf_isOk_iff {t : ValueType} {cs : List Criterion} :
    (elementsOf t cs).isOk = true ↔ ∀ c ∈ cs, ∃ v, c.Spells t v := by
  cases hcs : elementsOf t cs with
  | ok vs => exact iff_of_true rfl (spelled_of_mem (elementsOf_ok_iff.1 hcs))
  | error fault =>
    obtain ⟨before, c, after, rfl, -, hc⟩ := elementsOf_error hcs
    refine iff_of_false Bool.false_ne_true fun hall => ?_
    obtain ⟨v, l, rfl, hl⟩ := hall c (by simp)
    rcases hc with ⟨l', hl', hfault⟩ | ⟨hnot, -⟩
    · cases hl'
      rw [hl] at hfault
      cases hfault
    · exact hnot l rfl

theorem Criterion.Misspells.invalid {t : ValueType} {c : Criterion} {fault : CriterionFault} (h : c.Misspells t fault) :
    fault.Invalid := by
  rcases h with ⟨l, -, hl⟩ | ⟨-, rfl⟩
  · exact Literal.toElement_error hl
  · exact fun _ _ h => by cases h

/-! ## Lists -/

/-- What was compiled tests `e` for the values `ops` and, if they are several, asks a group for as many. -/
structure Compiled.AsksFor (r : Compiled) (field : String) (ps : List Parameter) (e : Expr) (ops : List Value) :
    Prop where
  parameters : r.parameters = bindOperands ps field ops
  predicate : ∃ p, r.outcome = .ok p ∧ p.field = field ∧ p.level = .row ∧ p.expr = .inValues e ops ∧
    p.membership = some ⟨e, ops.length⟩ ∧ (p.countTest.isSome = true ↔ 1 < ops.length) ∧
    ∀ test ∈ p.countTest, ∃ n : Int64, (ops.length < 2 ^ 63 → n.toInt = ops.length) ∧
      test = .compare .eq (.call .countDistinct e) (.value (.int64 n))

theorem Predicate.countTest_of_membership {p : Predicate} {e : Expr} {n : Nat} (h : p.membership = some ⟨e, n⟩) :
    p.countTest =
      if 1 < n then some (.compare .eq (.call .countDistinct e) (.value (.int64 (Int64.ofInt n)))) else none := by
  unfold countTest
  rw [h]

theorem toInt_ofInt_length {ops : List Value} (h : ops.length < 2 ^ 63) :
    (Int64.ofInt ops.length).toInt = ops.length :=
  Int64.toInt_ofInt_of_le (by omega) (by omega)

section
variable {s s' : Scope} {field : String} {t : Term} (htarget : s.filterTarget field = (s', .ok t))
  (ht : t.isCollection = true) {cs : List Criterion} (ps : List Parameter)
include htarget ht

theorem compile_list_ok {vs : List Value} (hvs : elementsOf t.type cs = .ok vs) :
    (compile s field (.alternatives cs) ps).AsksFor field ps t.expr (Value.distinct vs) := by
  have hrow : t.isAggregate = false := by
    unfold Term.isCollection at ht
    unfold Term.isAggregate
    rw [eq_of_beq ht]
    rfl
  have hbuilt : (Criterion.alternatives cs).build t =
      ⟨Value.distinct vs, .ok ⟨.inValues t.expr (Value.distinct vs), some (Value.distinct vs).length⟩⟩ := by
    simp only [Criterion.build, ht, if_true, buildMembership, hvs]
    show Binding.bind _ _ = _
    simp [Binding.bind, Binding.ofExcept, Binding.operandList, bind, pure, Binding.pure]
  have hcompiled : compile s field (.alternatives cs) ps =
      ⟨s', bindOperands ps field (Value.distinct vs), .ok ⟨field, .inValues t.expr (Value.distinct vs), .row,
        some ⟨t.expr, (Value.distinct vs).length⟩⟩⟩ := by
    rw [compile_plain_ok (fun _ h => by cases h) htarget ps hbuilt]
    unfold predicateOf
    rw [hrow]
    rfl
  rw [hcompiled]
  refine ⟨rfl, _, rfl, rfl, rfl, rfl, rfl, ?_⟩
  rw [Predicate.countTest_of_membership rfl]
  split
  · next hmany => exact ⟨iff_of_true rfl hmany, fun test htest => ⟨_, toInt_ofInt_length, (Option.some.inj htest).symm⟩⟩
  · next hfew => exact ⟨iff_of_false Bool.false_ne_true hfew, fun test htest => by cases htest⟩

theorem compile_list_error {fault : CriterionFault} (hfault : elementsOf t.type cs = .error fault) :
    (compile s field (.alternatives cs) ps).parameters = ps ∧
      (compile s field (.alternatives cs) ps).outcome = .error (.criterion field fault) := by
  have hbuilt : (Criterion.alternatives cs).build t = ⟨[], .error fault⟩ := by
    simp only [Criterion.build, ht, if_true, buildMembership, hfault]
    rfl
  rw [compile_plain_fault (fun _ h => by cases h) htarget ps hbuilt]
  exact ⟨rfl, rfl⟩

/-- **A list on a collection asks for the values that its literals spell, each once.**  It compiles just if every
element is a literal that spells one; the operands are the first of those that are the same, and a group is asked for as
many if they are several.  A list of the same elements, in whatever order and however often each, asks for the same.  A
list that does not compile binds nothing and is refused for its first element that spells no value. -/
theorem list_asks_for_distinct_values :
    ((compile s field (.alternatives cs) ps).outcome.isOk = true ↔ ∀ c ∈ cs, ∃ v, c.Spells t.type v) ∧
      (∀ vs, List.Forall₂ (Criterion.Spells t.type) cs vs → ∃ ops, FirstOf vs ops ∧
        (compile s field (.alternatives cs) ps).AsksFor field ps t.expr ops ∧
        ∀ ds, (∀ c, c ∈ ds ↔ c ∈ cs) → ∃ ops', (compile s field (.alternatives ds) ps).AsksFor field ps t.expr ops' ∧
          ops'.length = ops.length ∧ (∀ v ∈ ops, ∃ w ∈ ops', v.same w = true) ∧
          ∀ w ∈ ops', ∃ v ∈ ops, w.same v = true) ∧
      ∀ e, (compile s field (.alternatives cs) ps).outcome = .error e →
        (compile s field (.alternatives cs) ps).parameters = ps ∧
        ∃ fault before c after, e = .criterion field fault ∧ fault.Invalid ∧ cs = before ++ c :: after ∧
          (∀ b ∈ before, ∃ v, b.Spells t.type v) ∧ c.Misspells t.type fault := by
  refine ⟨?_, fun vs hspelled => ?_, fun e he => ?_⟩
  · rw [← elementsOf_isOk_iff]
    cases hcs : elementsOf t.type cs with
    | ok vs =>
      obtain ⟨p, hp, -⟩ := (compile_list_ok htarget ht ps hcs).predicate
      rw [hp]
      exact iff_of_true rfl rfl
    | error fault =>
      rw [(compile_list_error htarget ht ps hcs).2]
      exact iff_of_false Bool.false_ne_true Bool.false_ne_true
  · have hvs := elementsOf_ok_iff.2 hspelled
    have hholds := elementsOf_holds hvs
    refine ⟨_, firstOf_distinct hholds, compile_list_ok htarget ht ps hvs, fun ds hds => ?_⟩
    obtain ⟨ws, hws⟩ := exists_ok_of_isOk (elementsOf_isOk_iff.2 fun d (hd : d ∈ ds) =>
      spelled_of_mem hspelled d ((hds d).1 hd))
    have hmem : ∀ v, v ∈ ws ↔ v ∈ vs := fun v => by
      rw [mem_of_spelled (elementsOf_ok_iff.1 hws), mem_of_spelled hspelled]
      simp only [hds]
    obtain ⟨hlength, hcovers⟩ := distinct_of_mem_iff hholds hmem
    exact ⟨_, compile_list_ok htarget ht ps hws, hlength, hcovers,
      (distinct_of_mem_iff (elementsOf_holds hws) fun v => (hmem v).symm).2⟩
  · cases hcs : elementsOf t.type cs with
    | ok vs =>
      obtain ⟨p, hp, -⟩ := (compile_list_ok htarget ht ps hcs).predicate
      rw [hp] at he
      cases he
    | error fault =>
      obtain ⟨hparameters, houtcome⟩ := compile_list_error htarget ht ps hcs
      obtain ⟨before, c, after, hsplit, hbefore, hc⟩ := elementsOf_error hcs
      rw [houtcome] at he
      exact ⟨hparameters, fault, before, c, after, (Except.error.inj he).symm, hc.invalid, hsplit, hbefore, hc⟩

end

namespace Sample

def draw : Entity := .ofDeclarations "draw" "draws" [.collection "numbers" "draw_numbers" "draw_id" "number" .integer]
def drawScope : Scope := .new (.ofList [draw]) draw dataLabel

def fivesAndSeven : List Criterion :=
  [.value (.text " 5"), .value (.integer 5), .value (.integer 7), .value (.float (Binary64.ofInt 5))]

end Sample

open Sample in
/-- Numbers in several spellings are asked for once each, and in another order no less. -/
theorem fives_and_seven_asked_once :
    ∃ t, (drawScope.filterTarget "numbers").2 = .ok t ∧
      (∃ ops, FirstOf [.int64 5, .int64 5, .int64 7, .int64 5] ops ∧
        (compile drawScope "numbers" (.alternatives fivesAndSeven) []).AsksFor "numbers" []
          t.expr ops ∧
        ∃ ops', (compile drawScope "numbers" (.alternatives fivesAndSeven.reverse)
          []).AsksFor "numbers" [] t.expr ops' ∧ ops'.length = ops.length) ∧
      (compile drawScope "numbers" (.alternatives (.null :: fivesAndSeven)) []).parameters = [] := by
  rcases hpair : drawScope.filterTarget "numbers" with ⟨s', outcome⟩
  obtain ⟨t, ht, hcollection, htype⟩ := exists_ok (P := fun t => t.isCollection = true ∧ t.type = .integer)
    (x := (drawScope.filterTarget "numbers").2) (by decide +kernel)
  rw [hpair] at ht
  cases ht
  have hspelled : List.Forall₂ (Criterion.Spells t.type) fivesAndSeven [.int64 5, .int64 5, .int64 7, .int64 5] := by
    rw [htype]
    exact .cons ⟨_, rfl, by decide +kernel⟩ (.cons ⟨_, rfl, by decide +kernel⟩ (.cons ⟨_, rfl, by decide +kernel⟩
      (.cons ⟨_, rfl, by decide +kernel⟩ .nil)))
  refine ⟨t, rfl, ?_, ?_⟩
  · obtain ⟨ops, hfirst, hasks, hsame⟩ := (list_asks_for_distinct_values hpair hcollection []).2.1 _ hspelled
    obtain ⟨ops', hasks', hlength, -⟩ := hsame fivesAndSeven.reverse fun c => List.mem_reverse
    exact ⟨ops, hfirst, hasks, ops', hasks', hlength⟩
  · have hrefused := (@list_asks_for_distinct_values _ _ _ _ hpair hcollection (.null :: fivesAndSeven) []).2.2
    obtain ⟨e, he⟩ : ∃ e, (compile drawScope "numbers" (.alternatives (.null :: fivesAndSeven)) []).outcome = .error e :=
      ⟨_, rfl⟩
    exact (hrefused e he).1

end PageQuery
