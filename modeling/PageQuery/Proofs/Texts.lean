import PageQuery.Proofs.Blanked
import PageQuery.Proofs.Membership
import PageQuery.Proofs.TestedTerms
/-!
# Criteria that differ in their texts

The texts of a criterion become values, or decide whether there are any: a text may not be read, two elements of a list
may turn out to be one, and an exact match with a wildcard is a LIKE.  Criteria that differ in nothing but their texts,
and are alike in these three respects wherever they hold a criterion, build expressions that differ in nothing but their
values.
-/
namespace PageQuery

/-! ## Without texts -/

def Literal.erased : Literal → Literal
  | .text _ => .text ""
  | .integer n => .integer n
  | .float x => .float x
  | .boolean b => .boolean b

theorem Literal.eq_of_erased {l l' : Literal} (h : l.erased = l'.erased) :
    l = l' ∨ ∃ s s', l = .text s ∧ l' = .text s' := by
  cases l with
  | text s =>
    cases l' with
    | text s' => exact .inr ⟨s, s', rfl, rfl⟩
    | integer | float | boolean => cases h
  | integer | float | boolean =>
    cases l' with
    | text s' => cases h
    | integer | float | boolean => exact .inl h

def NumericTest.erased : NumericTest → NumericTest
  | .equal l => .equal l.erased
  | .below l => .below l.erased
  | .above l => .above l.erased
  | .between low high => .between low.erased high.erased

def TextMatch.erased (m : TextMatch) : TextMatch := { m with pattern := "" }

mutual

/-- The criterion with nothing in its texts and patterns. -/
def Criterion.erased : Criterion → Criterion
  | .null => .null
  | .value l => .value l.erased
  | .negation inner => .negation inner.erased
  | .alternatives items => .alternatives (Criterion.erasedAll items)
  | .numeric test => .numeric test.erased
  | .enumerated candidates => .enumerated (candidates.map Literal.erased)
  | .boolean b => .boolean b
  | .textMatch m => .textMatch m.erased

def Criterion.erasedAll : List Criterion → List Criterion
  | [] => []
  | c :: cs => c.erased :: Criterion.erasedAll cs

end

theorem Criterion.length_of_erasedAll : ∀ {cs ds : List Criterion},
    Criterion.erasedAll cs = Criterion.erasedAll ds → cs.length = ds.length
  | [], [], _ => rfl
  | _ :: _, _ :: _, h => by
    simp only [Criterion.erasedAll, List.cons.injEq] at h
    exact congrArg Nat.succ (Criterion.length_of_erasedAll h.2)
  | [], _ :: _, h | _ :: _, [], h => by simp [Criterion.erasedAll] at h

theorem Criterion.isNegation_erased (c : Criterion) : c.erased.isNegation = c.isNegation := by
  cases c <;> simp [Criterion.erased, Criterion.isNegation]

mutual

def Criterion.places : Criterion → Criterion → List (Criterion × Criterion)
  | .negation c, .negation d => (.negation c, .negation d) :: c.places d
  | .alternatives cs, .alternatives ds => (.alternatives cs, .alternatives ds) :: Criterion.placesOf cs ds
  | c, d => [(c, d)]

def Criterion.placesOf : List Criterion → List Criterion → List (Criterion × Criterion)
  | c :: cs, d :: ds => c.places d ++ Criterion.placesOf cs ds
  | _, _ => []

end

/-! ## Wildcards -/

def isWildcard (c : Char) : Bool := c == '*' || c == '?'

theorem isWildcard_of_ge {c : Char} (h : 64 ≤ c.toNat) : isWildcard c = false := by
  have hne : ∀ d : Char, d.toNat < 64 → c ≠ d := by
    rintro d hd rfl
    omega
  simp [isWildcard, hne '*' (by decide), hne '?' (by decide)]

theorem lowerRuns_ge : ∀ r ∈ lowerRuns, 64 ≤ r.first ∧ 64 ≤ r.target := by
  decide +kernel

theorem isWildcard_lowerChar (c : Char) : isWildcard (lowerChar c) = isWildcard c := by
  unfold lowerChar
  split
  · next n hn =>
    obtain ⟨r, hr, hlower⟩ := List.exists_of_findSome?_eq_some hn
    obtain ⟨hfirst, htarget⟩ := lowerRuns_ge r hr
    unfold LowerRun.lower? at hlower
    split at hlower
    · next hin =>
      cases hlower
      rw [isWildcard_of_ge (c := c) (by omega)]
      by_cases hvalid : (r.target + (c.toNat - r.first)).isValidChar
      · have hchar : Char.ofNat (r.target + (c.toNat - r.first)) = Char.ofNatAux _ hvalid := dif_pos hvalid
        have hnat : (Char.ofNat (r.target + (c.toNat - r.first))).toNat = r.target + (c.toNat - r.first) := by
          rw [hchar]
          rfl
        exact isWildcard_of_ge (by omega)
      · have hchar : Char.ofNat (r.target + (c.toNat - r.first)) = '\x00' := dif_neg hvalid
        rw [hchar]
        rfl
    · cases hlower
  · rfl

theorem any_isWildcard_lowerFrom : ∀ (cs before : List Char),
    (lowerFrom before cs).any isWildcard = cs.any isWildcard
  | [], _ => rfl
  | c :: cs, before => by
    have hsigma : isWildcard (lowerSigma before cs) = false := by
      unfold lowerSigma
      split <;> rfl
    rw [lowerFrom, List.any_append, any_isWildcard_lowerFrom cs, List.any_cons]
    split
    · next h =>
      subst h
      simp only [List.any_cons, List.any_nil, hsigma]
      rfl
    · split
      · next h =>
        subst h
        rfl
      · simp only [List.any_cons, List.any_nil, Bool.or_false, isWildcard_lowerChar]

def TextMatch.hasWildcard (m : TextMatch) : Bool := decide (m.mode = .exact) && m.pattern.toList.any isWildcard

theorem TextMatch.isSome_like? (m : TextMatch) : m.like?.isSome = (decide (m.mode ≠ .exact) || m.hasWildcard) := by
  have hexact : (likeChars? .exact (lowercase m.pattern).toList).isSome = m.pattern.toList.any isWildcard := by
    have hany := any_isWildcard_lowerFrom m.pattern.toList []
    rw [← hany, lowercase, String.toList_ofList]
    unfold likeChars?
    show (if List.any _ isWildcard = true then _ else _ : Option (List Char)).isSome = _
    cases (lowerFrom [] m.pattern.toList).any isWildcard <;> rfl
  obtain ⟨pattern, mode⟩ := m
  unfold TextMatch.like? TextMatch.hasWildcard
  rw [Option.isSome_map]
  cases mode with
  | exact => exact hexact
  | startsWith | endsWith | contains => rfl

/-! ## Lists -/

/-- Values that are the same at two places of one list are the same at these places of the other. -/
def CoincideAlike (vs ws : List Value) : Prop :=
  ∀ p ∈ vs.zip ws, ∀ q ∈ vs.zip ws, p.1.same q.1 = p.2.same q.2

instance (vs ws : List Value) : Decidable (CoincideAlike vs ws) :=
  inferInstanceAs (Decidable (∀ p ∈ vs.zip ws, ∀ q ∈ vs.zip ws, p.1.same q.1 = p.2.same q.2))

theorem CoincideAlike.length_distinct {vs ws : List Value} (h : CoincideAlike vs ws) (hlength : vs.length = ws.length) :
    (Value.distinct vs).length = (Value.distinct ws).length := by
  let keep : List Value → Value → List Value := fun kept v => if kept.any v.same then kept else kept ++ [v]
  -- whichever pairs were kept so far, both sides keep the next one or neither does
  have hfold : ∀ ps kept : List (Value × Value), ps ⊆ vs.zip ws → kept ⊆ vs.zip ws →
      ((ps.map Prod.fst).foldl keep (kept.map Prod.fst)).length =
        ((ps.map Prod.snd).foldl keep (kept.map Prod.snd)).length := by
    intro ps
    induction ps with
    | nil => simp
    | cons p ps ih =>
      intro kept hps hkept
      obtain ⟨hp, hps⟩ := List.cons_subset.1 hps
      have hany : (kept.map Prod.fst).any p.1.same = (kept.map Prod.snd).any p.2.same := by
        rw [List.any_map, List.any_map, Bool.eq_iff_iff, List.any_eq_true, List.any_eq_true]
        exact exists_congr fun q => and_congr_right fun hq => by
          rw [Function.comp_apply, Function.comp_apply, h p hp q (hkept hq)]
      have hsnoc := ih (kept ++ [p]) hps (List.append_subset.2 ⟨hkept, by simpa using hp⟩)
      simp only [List.map_append, List.map_cons, List.map_nil] at hsnoc
      simp only [List.map_cons, List.foldl_cons, keep, hany]
      split
      · exact ih kept hps hkept
      · exact hsnoc
  have hpairs := hfold (vs.zip ws) [] (List.Subset.refl _) (List.nil_subset _)
  rwa [List.map_fst_zip hlength.le, List.map_snd_zip hlength.ge] at hpairs

theorem length_variantsOf {e : EnumType} : ∀ {ls : List Literal} {vs : List String}, variantsOf e ls = .ok vs →
    vs.length = ls.length
  | [], _, h => by
    cases h
    rfl
  | _ :: _, _, h => by
    obtain ⟨v, ws, -, hls, rfl⟩ := variantsOf_cons h
    exact congrArg Nat.succ (length_variantsOf hls)

/-- The values that the elements of a list are read as, where they are compared with each other: the elements of a
membership test, and the candidates for an enumeration. -/
def Criterion.readValues (t : Term) : Criterion → List Value
  | .alternatives items => if t.isCollection then (elementsOf t.type items).toOption.getD [] else []
  | .enumerated candidates =>
    match t.type with
    | .enumerated e => ((variantsOf e candidates).toOption.getD []).map .text
    | _ => []
  | _ => []

def Criterion.hasWildcard (t : Term) : Criterion → Bool
  | .textMatch m => m.hasWildcard
  | .value (.text s) => !t.isCollection && decide (t.type = .text) && (TextMatch.mk s .exact).hasWildcard
  | _ => false

/-- Both criteria can be built on a term or neither can, the same places of their lists coincide, and both have a
wildcard or neither has. -/
structure Criterion.TakenAlike (t : Term) (c d : Criterion) : Prop where
  built : (c.build t).outcome.isOk = (d.build t).outcome.isOk
  coincide : CoincideAlike (c.readValues t) (d.readValues t)
  wildcard : c.hasWildcard t = d.hasWildcard t

instance (t : Term) (c d : Criterion) : Decidable (c.TakenAlike t d) :=
  decidable_of_iff ((c.build t).outcome.isOk = (d.build t).outcome.isOk ∧
      CoincideAlike (c.readValues t) (d.readValues t) ∧ c.hasWildcard t = d.hasWildcard t)
    ⟨fun h => ⟨h.1, h.2.1, h.2.2⟩, fun h => ⟨h.built, h.coincide, h.wildcard⟩⟩

theorem Criterion.takenAlike_relabel (f : String → String) (t : Term) :
    Criterion.TakenAlike (t.relabel f) = Criterion.TakenAlike t := by
  have hbuilt : ∀ c : Criterion, (c.build (t.relabel f)).outcome.isOk = (c.build t).outcome.isOk := fun c => by
    rw [Criterion.build_relabel]
    unfold Binding.mapped
    cases (c.build t).outcome <;> rfl
  have hvalues : ∀ c : Criterion, c.readValues (t.relabel f) = c.readValues t := fun c => by cases c <;> rfl
  have hwildcard : ∀ c : Criterion, c.hasWildcard (t.relabel f) = c.hasWildcard t := fun c => rfl
  refine funext₂ fun c d => propext ⟨fun ⟨h, h', h''⟩ => ⟨?_, ?_, ?_⟩, fun ⟨h, h', h''⟩ => ⟨?_, ?_, ?_⟩⟩
  · rwa [hbuilt, hbuilt] at h
  · rwa [hvalues, hvalues] at h'
  · exact h''
  · rwa [hbuilt, hbuilt]
  · rwa [hvalues, hvalues]
  · exact h''

/-! ## Building -/

def Built.blank (b : Built) : Built := ⟨b.expr.blank, b.wanted⟩

/-- If both finish, a function does not tell apart what they yield. -/
def Binding.Agree {α β : Type} (g : α → β) (x y : Binding α) : Prop :=
  ∀ a b, x.outcome = .ok a → y.outcome = .ok b → g a = g b

namespace Binding
variable {α β γ δ : Type} {g : γ → δ}

theorem Agree.refl (x : Binding γ) : x.Agree g x := fun a b ha hb => by
  rw [ha] at hb
  rw [Except.ok.inj hb]

theorem agree_pure {a b : γ} (h : g a = g b) : (Pure.pure a : Binding γ).Agree g (Pure.pure b) := fun c d hc hd => by
  cases hc
  cases hd
  exact h

theorem agree_fault (e : CriterionFault) (y : Binding γ) : (fault e : Binding γ).Agree g y := fun a b ha => by cases ha

theorem agree_bind {x : Binding α} {y : Binding β} {k : α → Binding γ} {l : β → Binding γ}
    (h : ∀ a b, x.outcome = .ok a → y.outcome = .ok b → (k a).Agree g (l b)) : (x >>= k).Agree g (y >>= l) := by
  obtain ⟨vs, e | a⟩ := x
  · exact agree_fault e _
  · obtain ⟨ws, e | b⟩ := y
    · exact fun c d _ hd => by cases hd
    · exact fun c d hc hd => h a b rfl rfl c d hc hd

end Binding

def Criterion.shown (t : Term) (c : Criterion) : Option Built := (c.build t).outcome.toOption.map Built.blank

section
open Binding

theorem NumericTest.build_agree {test test' : NumericTest} (h : test.erased = test'.erased) (e : Expr)
    (t : ValueType) : (test.build e t).Agree Expr.blank (test'.build e t) := by
  cases test with
  | equal l =>
    cases test' with
    | equal l' => exact agree_bind fun v w _ _ => agree_pure (by simp only [Expr.blank])
    | below | above | between => cases h
  | below l =>
    cases test' with
    | below l' => exact agree_bind fun v w _ _ => agree_pure (by simp only [Expr.blank])
    | equal | above | between => cases h
  | above l =>
    cases test' with
    | above l' => exact agree_bind fun v w _ _ => agree_pure (by simp only [Expr.blank])
    | equal | below | between => cases h
  | between low high =>
    cases test' with
    | between low' high' =>
      exact agree_bind fun v w _ _ => agree_bind fun v' w' _ _ => agree_pure (by simp only [Expr.blank])
    | equal | below | above => cases h

theorem buildVariants_agree {ls ls' : List Literal} (hlength : ls.length = ls'.length) (e : Expr) {t : ValueType}
    (hsame : ∀ enum vs ws, t = .enumerated enum → variantsOf enum ls = .ok vs → variantsOf enum ls' = .ok ws →
      CoincideAlike (vs.map .text) (ws.map .text)) :
    (buildVariants ls e t).Agree Expr.blank (buildVariants ls' e t) := by
  unfold buildVariants
  cases t with
  | integer | float | boolean | text | reference => exact agree_fault _ _
  | enumerated enum =>
    refine agree_bind fun vs ws hvs hws => ?_
    have hdistinct := (hsame enum vs ws rfl hvs hws).length_distinct (by
      rw [List.length_map, List.length_map, length_variantsOf hvs, length_variantsOf hws, hlength])
    generalize Value.distinct (vs.map .text) = xs at hdistinct
    generalize Value.distinct (ws.map .text) = ys at hdistinct
    match xs, ys, hdistinct with
    | [], [], _ => exact agree_fault _ _
    | [v], [w], _ => exact agree_bind fun v w _ _ => agree_pure (by simp only [Expr.blank])
    | v :: v' :: xs, w :: w' :: ys, hdistinct =>
      refine agree_bind fun vs ws hvs hws => agree_pure ?_
      cases hvs
      cases hws
      simp only [Expr.blank, List.map_const', hdistinct]

theorem buildTruth_agree (b b' : Bool) (e : Expr) (t : ValueType) :
    (buildTruth b e t).Agree Expr.blank (buildTruth b' e t) := by
  unfold buildTruth
  split
  · exact agree_bind fun v w _ _ => agree_pure (by simp only [Expr.blank])
  · exact agree_fault _ _

theorem TextMatch.build_agree {m m' : TextMatch} (h : m.erased = m'.erased)
    (hwildcard : m.hasWildcard = m'.hasWildcard) (e : Expr) (t : ValueType) :
    (m.build e t).Agree Expr.blank (m'.build e t) := by
  have hmode : m.mode = m'.mode := (TextMatch.mk.inj h).2
  unfold TextMatch.build
  split
  · have hlike : m.like?.isSome = m'.like?.isSome := by
      rw [TextMatch.isSome_like?, TextMatch.isSome_like?, hmode, hwildcard]
    cases hm : m.like? with
    | none =>
      cases hm' : m'.like? with
      | none => exact agree_bind fun v w _ _ => agree_pure (by simp only [Expr.blank])
      | some p' =>
        rw [hm, hm'] at hlike
        cases hlike
    | some p =>
      cases hm' : m'.like? with
      | none =>
        rw [hm, hm'] at hlike
        cases hlike
      | some p' => exact agree_bind fun v w _ _ => agree_pure (by simp only [Expr.blank])
  · exact agree_fault _ _

theorem buildLiteral_agree {l l' : Literal} (h : l.erased = l'.erased) {t : Term} (ht : t.isCollection = false)
    (hwildcard : (Criterion.value l).hasWildcard t = (Criterion.value l').hasWildcard t) :
    (buildLiteral l t.expr t.type).Agree Expr.blank (buildLiteral l' t.expr t.type) := by
  rcases Literal.eq_of_erased h with rfl | ⟨s, s', rfl, rfl⟩
  · exact Agree.refl _
  · simp only [Criterion.hasWildcard, ht, Bool.not_false, Bool.true_and] at hwildcard
    cases htype : t.type with
    | integer | float => exact @NumericTest.build_agree (.equal (.text s)) (.equal (.text s')) rfl t.expr _
    | boolean => exact agree_bind fun b b' _ _ => buildTruth_agree b b' _ _
    | text =>
      simp only [htype, decide_true, Bool.true_and] at hwildcard
      exact @TextMatch.build_agree ⟨s, .exact⟩ ⟨s', .exact⟩ rfl hwildcard t.expr .text
    | enumerated enum =>
      refine @buildVariants_agree [.text s] [.text s'] rfl t.expr (.enumerated enum) fun enum vs ws _ hvs hws => ?_
      obtain ⟨v, hv⟩ := List.length_eq_one_iff.1 (length_variantsOf hvs)
      obtain ⟨w, hw⟩ := List.length_eq_one_iff.1 (length_variantsOf hws)
      subst hv hw
      simp [CoincideAlike, Value.same]
    | reference entity => exact agree_fault _ _

theorem buildMembership_agree {cs ds : List Criterion} (hlength : cs.length = ds.length) {t : Term}
    (ht : t.isCollection = true)
    (hsame : CoincideAlike ((Criterion.alternatives cs).readValues t) ((Criterion.alternatives ds).readValues t)) :
    (buildMembership (.alternatives cs) t.expr t.type).Agree Built.blank
      (buildMembership (.alternatives ds) t.expr t.type) := by
  refine agree_bind fun vs ws hvs hws => agree_bind fun vs' ws' hvs' hws' => agree_pure ?_
  cases hvs'
  cases hws'
  have hvs' : elementsOf t.type cs = .ok vs := hvs
  have hws' : elementsOf t.type ds = .ok ws := hws
  simp only [Criterion.readValues, ht, if_true, hvs', hws'] at hsame
  replace hsame : CoincideAlike vs ws := hsame
  have hdistinct := hsame.length_distinct (by rw [length_elementsOf hvs', length_elementsOf hws', hlength])
  simp only [Built.blank, Expr.blank, List.map_const', hdistinct]

theorem Expr.blank_disjunction (es : List Expr) :
    (Expr.disjunction es).map Expr.blank = Expr.disjunction (es.map Expr.blank) :=
  (Expr.disjunction_map (fun a b => by simp only [Expr.blank]) es).symm

theorem Criterion.shown_alternatives {t : Term} (ht : t.isCollection = false) (cs : List Criterion) :
    (Criterion.alternatives cs).shown t =
      (Expr.disjunction ((Criterion.buildAll t cs).2.map Expr.blank)).map Built.plain := by
  unfold Criterion.shown
  simp only [Criterion.build, ht, Bool.false_eq_true, if_false]
  unfold anyBuilt
  rw [← Expr.blank_disjunction]
  cases Expr.disjunction (Criterion.buildAll t cs).2 <;> rfl

theorem Criterion.shown_buildAll (t : Term) (c : Criterion) (cs : List Criterion) :
    (Criterion.buildAll t (c :: cs)).2.map Expr.blank =
      ((c.shown t).map Built.expr).toList ++ (Criterion.buildAll t cs).2.map Expr.blank := by
  unfold Criterion.shown
  simp only [Criterion.buildAll]
  cases (c.build t).outcome <;> rfl

theorem Criterion.shown_negation (t : Term) (c : Criterion) :
    (Criterion.negation c).shown t = (c.shown t).map fun b => Built.plain (.not b.expr) := by
  unfold Criterion.shown
  rw [Criterion.build_not]
  unfold Binding.mapped
  cases (c.build t).outcome with
  | error e => rfl
  | ok b =>
    simp only [Except.map, Except.toOption, Option.map_some, Built.plain, Built.blank, Expr.blank]

theorem Criterion.shown_eq {t : Term} {c d : Criterion} (hbuilt : (c.build t).outcome.isOk = (d.build t).outcome.isOk)
    (h : (c.build t).Agree Built.blank (d.build t)) : c.shown t = d.shown t := by
  unfold Criterion.shown
  cases hc : (c.build t).outcome with
  | error e =>
    cases hd : (d.build t).outcome with
    | error e' => rfl
    | ok b =>
      rw [hc, hd] at hbuilt
      cases hbuilt
  | ok a =>
    cases hd : (d.build t).outcome with
    | error e' =>
      rw [hc, hd] at hbuilt
      cases hbuilt
    | ok b => exact congrArg some (h a b hc hd)

/-- Criteria that show the same on a term cannot be built there, or build what differs by values. -/
theorem Criterion.shown_cases {t : Term} {c d : Criterion} (h : c.shown t = d.shown t) :
    (∃ e e', (c.build t).outcome = .error e ∧ (d.build t).outcome = .error e') ∨
      ∃ a b, (c.build t).outcome = .ok a ∧ (d.build t).outcome = .ok b ∧ a.blank = b.blank := by
  unfold Criterion.shown at h
  cases hc : (c.build t).outcome with
  | error e =>
    cases hd : (d.build t).outcome with
    | error e' => exact .inl ⟨e, e', rfl, rfl⟩
    | ok b =>
      rw [hc, hd] at h
      cases h
  | ok a =>
    cases hd : (d.build t).outcome with
    | error e' =>
      rw [hc, hd] at h
      cases h
    | ok b =>
      rw [hc, hd] at h
      exact .inr ⟨a, b, rfl, rfl, Option.some.inj h⟩

theorem agree_onTerm {t : Term} {c d : Criterion} {x y : Binding Expr} {fault : CriterionFault}
    (hc : buildMembership c t.expr t.type = .fault fault) (h : t.isCollection = false → x.Agree Expr.blank y) :
    (if t.isCollection then buildMembership c t.expr t.type else do let e ← x; Pure.pure (Built.plain e)).Agree
      Built.blank
      (if t.isCollection then buildMembership d t.expr t.type else do let e ← y; Pure.pure (Built.plain e)) := by
  cases ht : t.isCollection with
  | true =>
    simp only [if_true, hc]
    exact agree_fault fault _
  | false =>
    simp only [Bool.false_eq_true, if_false]
    exact agree_bind fun a b ha hb => agree_pure (congrArg Built.plain (h ht a b ha hb))

mutual

/-- **What a criterion shows on a term does not depend on its texts**, beyond whether it can be built, which places of
its lists coincide, and wildcards. -/
theorem Criterion.shown_of_places (t : Term) : ∀ {c d : Criterion}, c.erased = d.erased →
    (∀ p ∈ c.places d, p.1.TakenAlike t p.2) → c.shown t = d.shown t
  | .negation c, d, h, hplaces => by
    cases d <;> simp only [Criterion.erased, reduceCtorEq, Criterion.negation.injEq] at h
    simp only [Criterion.places, List.forall_mem_cons] at hplaces
    rw [Criterion.shown_negation, Criterion.shown_negation, Criterion.shown_of_places t h hplaces.2]
  | .null, d, h, _ => by
    cases d <;> simp only [Criterion.erased, reduceCtorEq] at h
    rfl
  | .alternatives cs, d, h, hplaces => by
    cases d <;> simp only [Criterion.erased, reduceCtorEq, Criterion.alternatives.injEq] at h
    simp only [Criterion.places, List.forall_mem_cons] at hplaces
    cases ht : t.isCollection with
    | true =>
      refine Criterion.shown_eq hplaces.1.built ?_
      simp only [Criterion.build, ht, if_true]
      exact buildMembership_agree (Criterion.length_of_erasedAll h) ht hplaces.1.coincide
    | false =>
      rw [Criterion.shown_alternatives ht, Criterion.shown_alternatives ht, Criterion.shown_of_placesOf t h hplaces.2]
  | .value l, d, h, hplaces => by
    cases d <;> simp only [Criterion.erased, reduceCtorEq, Criterion.value.injEq] at h
    have halike := hplaces _ List.mem_cons_self
    refine Criterion.shown_eq halike.built ?_
    simp only [Criterion.build]
    exact agree_onTerm rfl fun ht => buildLiteral_agree h ht halike.wildcard
  | .numeric test, d, h, hplaces => by
    cases d <;> simp only [Criterion.erased, reduceCtorEq, Criterion.numeric.injEq] at h
    refine Criterion.shown_eq (hplaces _ List.mem_cons_self).built ?_
    simp only [Criterion.build]
    exact agree_onTerm rfl fun _ => NumericTest.build_agree h _ _
  | .enumerated candidates, d, h, hplaces => by
    cases d <;> simp only [Criterion.erased, reduceCtorEq, Criterion.enumerated.injEq] at h
    have halike := hplaces _ List.mem_cons_self
    refine Criterion.shown_eq halike.built ?_
    simp only [Criterion.build]
    refine agree_onTerm rfl fun _ => buildVariants_agree (by simpa using congrArg List.length h) _ ?_
    intro enum vs ws henum hvs hws
    have hsame := halike.coincide
    simp only [Criterion.readValues, henum, hvs, hws] at hsame
    exact hsame
  | .boolean b, d, h, _ => by
    cases d <;> simp only [Criterion.erased, reduceCtorEq, Criterion.boolean.injEq] at h
    rw [h]
  | .textMatch m, d, h, hplaces => by
    cases d <;> simp only [Criterion.erased, reduceCtorEq, Criterion.textMatch.injEq] at h
    have halike := hplaces _ List.mem_cons_self
    refine Criterion.shown_eq halike.built ?_
    simp only [Criterion.build]
    exact agree_onTerm rfl fun _ => TextMatch.build_agree h halike.wildcard _ _

theorem Criterion.shown_of_placesOf (t : Term) : ∀ {cs ds : List Criterion},
    Criterion.erasedAll cs = Criterion.erasedAll ds → (∀ p ∈ Criterion.placesOf cs ds, p.1.TakenAlike t p.2) →
    (Criterion.buildAll t cs).2.map Expr.blank = (Criterion.buildAll t ds).2.map Expr.blank
  | [], [], _, _ => rfl
  | c :: cs, d :: ds, h, hplaces => by
    simp only [Criterion.erasedAll, List.cons.injEq] at h
    simp only [Criterion.placesOf, List.forall_mem_append] at hplaces
    rw [Criterion.shown_buildAll, Criterion.shown_buildAll, Criterion.shown_of_places t h.1 hplaces.1,
      Criterion.shown_of_placesOf t h.2 hplaces.2]
  | [], _ :: _, h, _ | _ :: _, [], h, _ => by simp [Criterion.erasedAll] at h

end

end

end PageQuery
