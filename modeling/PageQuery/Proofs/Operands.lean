import PageQuery.Proofs.Dropped
import PageQuery.Proofs.TestedTerms
/-!
# Parameters account for operands

Operands stand in a predicate in the order in which they were bound.  A list element that cannot be built leaves behind
what it had bound by then, so a predicate may hold fewer operands than were bound for it, in the same order, and holds
all of them when every element could be built.  Parameters are numbered through the whole build, and the number ends
their names, so no two names are the same.
-/
namespace PageQuery

/-! ## The operands of a predicate -/

mutual

/-- The operands of a predicate from left to right: what tested expressions are compared with, below negations and
disjunctions and in the conditions of a subquery, but neither what is selected there nor a count of its groups. -/
def Expr.operands : Expr → List Value
  | .compare _ _ (.value v) => [v]
  | .between _ (.value v) (.value w) => [v, w]
  | .inValues _ vs => vs
  | .like _ pattern => [.text pattern]
  | .not e => e.operands
  | .and a b | .or a b => a.operands ++ b.operands
  | .nonempty q => q.operands
  | _ => []

def Expr.operandsAll : List Expr → List Value
  | [] => []
  | e :: es => e.operands ++ Expr.operandsAll es

def Subquery.operands : Subquery → List Value
  | .select _ _ _ _ conditions _ _ => Expr.operandsAll conditions

end

theorem Expr.operandsAll_eq_flatMap (es : List Expr) : Expr.operandsAll es = es.flatMap Expr.operands := by
  induction es with
  | nil => simp [Expr.operandsAll]
  | cons e es ih => simp [Expr.operandsAll, ih]

theorem Expr.operands_disjunction {es : List Expr} {e : Expr} (h : Expr.disjunction es = some e) :
    e.operands = es.flatMap Expr.operands := by
  have hfold : ∀ (es : List Expr) (a : Expr),
      (es.foldl Expr.or a).operands = a.operands ++ es.flatMap Expr.operands := by
    intro es
    induction es with
    | nil => simp
    | cons e es ih => exact fun a => by simp [ih, Expr.operands]
  cases es with
  | nil => cases h
  | cons a es =>
    cases h
    exact hfold es a

theorem operands_nonexistence (outer inner : Scope) (p : Predicate) :
    (nonexistence outer inner p).operands = p.expr.operands := by
  have hidentity : ∀ s : Scope, s.identity.expr = .column ⟨s.label, s.root.identityColumn⟩ := fun _ => rfl
  unfold nonexistence Scope.correlated Expr.eq
  cases p.countTest <;> simp [Expr.operands, Subquery.operands, Expr.operandsAll_eq_flatMap, hidentity]

/-! ## Building -/

/-- The expression that a binding yields holds what was bound, in order. -/
def Binding.Holds (x : Binding Expr) : Prop := x.Yields fun e => e.operands = x.operands

namespace Binding

theorem holds_fault (e : CriterionFault) : (fault e : Binding Expr).Holds := yields_fault _ e

theorem holds_operand (x : Except CriterionFault Value) {g : Value → Expr} (hg : ∀ v, (g v).operands = [v]) :
    (operand x >>= fun v => Pure.pure (g v)).Holds := by
  cases x with
  | error e => exact fun a ha => by cases ha
  | ok v =>
    intro a ha
    cases ha
    exact hg v

theorem holds_ofExcept {α : Type} (x : Except CriterionFault α) {k : α → Binding Expr} (hk : ∀ a, (k a).Holds) :
    (ofExcept x >>= k).Holds := by
  cases x with
  | error e => exact fun a ha => by cases ha
  | ok a => exact hk a

end Binding

open Binding in
theorem NumericTest.build_holds (test : NumericTest) (e : Expr) (t : ValueType) : (test.build e t).Holds := by
  cases test with
  | equal l | below l | above l => exact holds_operand _ fun v => by simp [Expr.operands]
  | between low high =>
    simp only [NumericTest.build]
    cases low.toNumber t with
    | error fault => exact fun a ha => by cases ha
    | ok v =>
      cases high.toNumber t with
      | error fault => exact fun a ha => by cases ha
      | ok w =>
        intro a ha
        cases ha
        simp only [Expr.operands]
        rfl

open Binding in
theorem buildVariants_holds (candidates : List Literal) (e : Expr) (t : ValueType) :
    (buildVariants candidates e t).Holds := by
  unfold buildVariants
  cases t with
  | enumerated enum =>
    refine holds_ofExcept _ fun vs => ?_
    split
    · exact holds_fault _
    · exact holds_operand _ fun v => by simp [Expr.operands]
    · intro a ha
      cases ha
      simp only [Expr.operands]
      exact (List.append_nil _).symm
  | integer | float | boolean | text | reference => exact holds_fault _

open Binding in
theorem buildTruth_holds (b : Bool) (e : Expr) (t : ValueType) : (buildTruth b e t).Holds := by
  unfold buildTruth
  split
  · exact holds_operand _ fun v => by simp [Expr.operands]
  · exact holds_fault _

open Binding in
theorem TextMatch.build_holds (m : TextMatch) (e : Expr) (t : ValueType) : (m.build e t).Holds := by
  unfold TextMatch.build
  split
  · split
    · exact holds_operand _ fun v => by simp [Expr.operands]
    · intro a ha
      cases ha
      simp only [Expr.operands]
      rfl
  · exact holds_fault _

open Binding in
theorem buildLiteral_holds (l : Literal) (e : Expr) (t : ValueType) : (buildLiteral l e t).Holds := by
  unfold buildLiteral
  split
  all_goals with_reducible first
    | exact buildVariants_holds _ _ _
    | exact NumericTest.build_holds _ _ _
    | exact holds_ofExcept _ fun b => buildTruth_holds b _ _
    | exact TextMatch.build_holds _ _ _
    | exact holds_fault _

theorem buildMembership_holds (c : Criterion) (e : Expr) (t : ValueType) :
    (buildMembership c e t).Yields fun b => b.expr.operands = (buildMembership c e t).operands := by
  cases c with
  | alternatives items =>
    simp only [buildMembership]
    cases elementsOf t items with
    | error fault => exact fun b hb => by cases hb
    | ok vs =>
      intro b hb
      cases hb
      simp only [Expr.operands]
      exact (List.append_nil _).symm
  | null | value | negation | numeric | enumerated | boolean | textMatch => exact Binding.yields_fault _ _

mutual

/-- Every element of every list in a criterion can be built on a term.  A collection is tested for the values of a list
together, so there no element is built by itself. -/
def Criterion.ListsBuild (t : Term) : Criterion → Prop
  | .negation inner => inner.ListsBuild t
  | .alternatives items => t.isCollection = true ∨ Criterion.AllBuild t items
  | .null | .value _ | .numeric _ | .enumerated _ | .boolean _ | .textMatch _ => True

def Criterion.AllBuild (t : Term) : List Criterion → Prop
  | [] => True
  | c :: cs => (c.build t).outcome.isOk = true ∧ c.ListsBuild t ∧ Criterion.AllBuild t cs

end

theorem Binding.Holds.plain {x : Binding Expr} (h : x.Holds) {b : Built}
    (hb : (x >>= fun e => Pure.pure (Built.plain e) : Binding Built).outcome = .ok b) :
    b.expr.operands = (x >>= fun e => Pure.pure (Built.plain e) : Binding Built).operands := by
  obtain ⟨vs, e | a⟩ := x
  · cases hb
  · cases hb
    exact (h a rfl).trans (List.append_nil vs).symm

theorem Criterion.operands_comparison {t : Term} {c : Criterion} (hc : c.isComparison = true) {b : Built}
    (h : (c.build t).outcome = .ok b) : b.expr.operands = (c.build t).operands := by
  cases hone : t.isCollection with
  | true =>
    cases c with
    | null | negation | alternatives => cases hc
    | value | numeric | enumerated | boolean | textMatch =>
      simp only [Criterion.build, hone, if_true] at h ⊢
      exact buildMembership_holds _ _ _ b h
  | false =>
    cases c with
    | null | negation | alternatives => cases hc
    | value l =>
      simp only [Criterion.build, hone, Bool.false_eq_true, if_false] at h ⊢
      exact (buildLiteral_holds l t.expr t.type).plain h
    | numeric test =>
      simp only [Criterion.build, hone, Bool.false_eq_true, if_false] at h ⊢
      exact (NumericTest.build_holds test t.expr t.type).plain h
    | enumerated candidates =>
      simp only [Criterion.build, hone, Bool.false_eq_true, if_false] at h ⊢
      exact (buildVariants_holds candidates t.expr t.type).plain h
    | boolean b =>
      simp only [Criterion.build, hone, Bool.false_eq_true, if_false] at h ⊢
      exact (buildTruth_holds b t.expr t.type).plain h
    | textMatch m =>
      simp only [Criterion.build, hone, Bool.false_eq_true, if_false] at h ⊢
      exact (TextMatch.build_holds m t.expr t.type).plain h

mutual

/-- **What a criterion is built to holds operands that were bound, in order, and all of them if its lists build.** -/
theorem Criterion.operands_build (t : Term) : ∀ (c : Criterion) (b : Built), (c.build t).outcome = .ok b →
    b.expr.operands.Sublist (c.build t).operands ∧ (c.ListsBuild t → b.expr.operands = (c.build t).operands)
  | .negation inner, b, h => by
    rw [Criterion.build_not] at h ⊢
    simp only [Binding.mapped] at h ⊢
    cases hinner : (inner.build t).outcome with
    | error e =>
      rw [hinner] at h
      cases h
    | ok b' =>
      rw [hinner] at h
      cases h
      simp only [Built.plain, Expr.operands, Criterion.ListsBuild]
      exact Criterion.operands_build t inner b' hinner
  | .null, b, h => by
    simp only [Criterion.build] at h ⊢
    cases h
    simp only [Built.plain, Expr.operands]
    exact ⟨List.nil_sublist _, fun _ => rfl⟩
  | .alternatives items, b, h => by
    obtain ⟨hsublist, hall⟩ := Criterion.operands_buildAll t items
    cases hone : t.isCollection with
    | true =>
      simp only [Criterion.build, hone, if_true] at h ⊢
      have heq := buildMembership_holds (.alternatives items) t.expr t.type b h
      exact ⟨heq ▸ List.Sublist.refl _, fun _ => heq⟩
    | false =>
      simp only [Criterion.build, Criterion.ListsBuild, hone, Bool.false_eq_true, if_false, false_or] at h ⊢
      unfold anyBuilt at h ⊢
      cases hany : Expr.disjunction (Criterion.buildAll t items).2 with
      | none =>
        rw [hany] at h
        cases h
      | some e =>
        rw [hany] at h
        cases h
        simp only [Built.plain, Expr.operands_disjunction hany]
        exact ⟨hsublist, hall⟩
  | .value _, b, h | .numeric _, b, h | .enumerated _, b, h | .boolean _, b, h | .textMatch _, b, h => by
    have heq := Criterion.operands_comparison rfl h
    exact ⟨heq ▸ List.Sublist.refl _, fun _ => heq⟩

theorem Criterion.operands_buildAll (t : Term) : ∀ cs : List Criterion,
    ((Criterion.buildAll t cs).2.flatMap Expr.operands).Sublist (Criterion.buildAll t cs).1 ∧
      (Criterion.AllBuild t cs →
        (Criterion.buildAll t cs).2.flatMap Expr.operands = (Criterion.buildAll t cs).1)
  | [] => by simp [Criterion.buildAll]
  | c :: cs => by
    obtain ⟨hsublist, hall⟩ := Criterion.operands_buildAll t cs
    have hc := Criterion.operands_build t c
    simp only [Criterion.buildAll]
    cases hb : (c.build t).outcome with
    | error e =>
      -- what a failed element had bound is left over
      refine ⟨hsublist.trans (List.sublist_append_right _ _), fun h => ?_⟩
      simp only [Criterion.AllBuild, hb] at h
      cases h.1
    | ok b =>
      obtain ⟨hfirst, hwhole⟩ := hc b hb
      simp only [List.flatMap_cons]
      refine ⟨hfirst.append hsublist, fun h => ?_⟩
      simp only [Criterion.AllBuild] at h
      rw [hwhole h.2.1, hall h.2.2]

end

mutual

theorem Criterion.listsBuild_relabel (f : String → String) (t : Term) : ∀ c : Criterion,
    c.ListsBuild (t.relabel f) ↔ c.ListsBuild t
  | .negation inner => by
    simp only [Criterion.ListsBuild]
    exact Criterion.listsBuild_relabel f t inner
  | .alternatives items => by
    simp only [Criterion.ListsBuild]
    exact or_congr Iff.rfl (Criterion.allBuild_relabel f t items)
  | .null | .value _ | .numeric _ | .enumerated _ | .boolean _ | .textMatch _ => by simp only [Criterion.ListsBuild]

theorem Criterion.allBuild_relabel (f : String → String) (t : Term) : ∀ cs : List Criterion,
    Criterion.AllBuild (t.relabel f) cs ↔ Criterion.AllBuild t cs
  | [] => by simp only [Criterion.AllBuild]
  | c :: cs => by
    have hok : (c.build (t.relabel f)).outcome.isOk = (c.build t).outcome.isOk := by
      rw [Criterion.build_relabel]
      simp only [Binding.mapped]
      cases (c.build t).outcome <;> rfl
    simp only [Criterion.AllBuild, hok]
    exact and_congr_right fun _ => and_congr (Criterion.listsBuild_relabel f t c) (Criterion.allBuild_relabel f t cs)

end

/-! ## The values of a predicate's text -/

theorem boundValues_placed (p : Place) (e : Expr) (ts : List Token) :
    boundValues (placed p e ts) = boundValues ts := by
  unfold placed inParens
  split
  · simp [boundValues_append, boundValues]
  · rfl

theorem boundValues_tokensAll (es : List Expr) :
    (Expr.tokensAll es).flatMap boundValues = es.flatMap fun e => boundValues e.tokens := by
  induction es with
  | nil => simp [Expr.tokensAll]
  | cons e es ih => simp [Expr.tokensAll, ih]

theorem boundValues_separated (word : String) : ∀ tss : List (List Token),
    boundValues (separated word tss) = tss.flatMap boundValues
  | [] => rfl
  | [ts] => by simp [separated]
  | ts :: us :: rest => by
    have hrest := boundValues_separated word (us :: rest)
    simp only [separated, boundValues_append, hrest, List.flatMap_cons, boundValues, List.append_nil]

theorem boundValues_values : ∀ vs : List Value, (vs.map fun v => [Token.value v]).flatMap boundValues = vs
  | [] => rfl
  | v :: vs => congrArg (v :: ·) (boundValues_values vs)

theorem boundValues_zipWith (es : List Expr) :
    (List.zipWith (placed .rightOfAnd) es (Expr.tokensAll es)).flatMap boundValues =
      es.flatMap fun e => boundValues e.tokens := by
  induction es with
  | nil => simp [Expr.tokensAll]
  | cons e es ih => simp [Expr.tokensAll, boundValues_placed, ih]

theorem boundValues_conjuncts : ∀ es : List Expr,
    boundValues (conjunctTokens es (Expr.tokensAll es)) = es.flatMap fun e => boundValues e.tokens
  | [] => by simp [conjunctTokens, boundValues]
  | [e] => by simp [Expr.tokensAll, conjunctTokens]
  | e :: f :: es => by
    have hseveral : conjunctTokens (e :: f :: es) (Expr.tokensAll (e :: f :: es)) =
        separated " AND " (placed .leftOfAnd e e.tokens ::
          List.zipWith (placed .rightOfAnd) (f :: es) (Expr.tokensAll (f :: es))) := by
      simp only [Expr.tokensAll, conjunctTokens]
    rw [hseveral, boundValues_separated, List.flatMap_cons, boundValues_placed, boundValues_zipWith]
    rfl

theorem boundValues_clause (word : String) (ts : List Token) : boundValues (clause word ts) = boundValues ts := by
  unfold clause
  split
  · next hempty =>
    rw [List.isEmpty_iff.1 hempty]
  · simp [boundValues]

theorem testable_bound :
    Testable (fun e => boundValues e.tokens = []) fun e => boundValues e.tokens = e.operands where
  lower := fun e he => by simp [Expr.tokens, boundValues_append, boundValues, he]
  compare := fun op e v he => by
    simp [Expr.tokens, Expr.operands, boundValues_append, boundValues_placed, boundValues, he]
  between := fun e v w he => by
    simp [Expr.tokens, Expr.operands, boundValues_append, boundValues_placed, boundValues, he]
  like := fun e pattern he => by
    simp [Expr.tokens, Expr.operands, boundValues_append, boundValues_placed, boundValues, he]
  among := fun e vs he => by
    simp [Expr.tokens, Expr.operands, boundValues_append, boundValues_placed, boundValues_separated,
      boundValues_values, boundValues, he]
  isNull := fun e he => by
    simp [Expr.tokens, Expr.operands, boundValues_append, boundValues_placed, boundValues, he]
  not := fun e he => by
    simp [Expr.tokens, Expr.operands, boundValues_placed, boundValues, he]
  or := fun a b ha hb => by
    simp [Expr.tokens, Expr.operands, boundValues_append, boundValues_placed, boundValues, ha, hb]

theorem boundValues_joins (js : List Join) : boundValues (js.flatMap Join.tokens) = [] := by
  induction js with
  | nil => rfl
  | cons j js ih =>
    simp [ih, Join.tokens, Column.tokens, labelledTokens, boundValues]

theorem boundValues_nonexistence (outer inner : Scope) (p : Predicate) :
    boundValues (nonexistence outer inner p).tokens =
      .int32 1 :: (boundValues p.expr.tokens ++ p.countTest.toList.flatMap fun e => boundValues e.tokens) := by
  have hidentity : ∀ s : Scope, boundValues s.identity.expr.tokens = [] := fun s => by
    simp [Scope.identity, Expr.col, Expr.tokens, Column.tokens, boundValues]
  unfold nonexistence Scope.correlated
  cases p.countTest <;>
    simp [Expr.tokens, Subquery.tokens, sourceTokens, Expr.eq, boundValues_append, boundValues_placed, boundValues,
      boundValues_clause, boundValues_conjuncts, boundValues_separated, boundValues_tokensAll, boundValues_joins,
      labelledTokens, hidentity]

theorem boundValues_countTest {p : Predicate} (hp : ∀ m ∈ p.membership, boundValues m.value.tokens = []) :
    (p.countTest.toList.flatMap fun e => boundValues e.tokens) = [] ∨
      ∃ n, (p.countTest.toList.flatMap fun e => boundValues e.tokens) = [.int64 n] := by
  unfold Predicate.countTest
  cases hm : p.membership with
  | none => exact .inl rfl
  | some m =>
    simp only
    split
    · refine .inr ⟨Int64.ofInt m.wanted, ?_⟩
      simp [Expr.tokens, boundValues_append, boundValues_placed, boundValues, hp m hm]
    · exact .inl rfl

/-! ## Names -/

/-- The parameter at each place has the name of one of the fields, and the number of the place. -/
def Numbered (fields : List String) (ps : List Parameter) : Prop :=
  ∀ (i : Nat) (h : i < ps.length), ∃ field ∈ fields, ps[i].name = parameterStem field ++ "_" ++ toString i

theorem name_nameOperands (field : String) : ∀ (n : Nat) (vs : List Value) (i : Nat)
    (h : i < (nameOperands field n vs).length),
    (nameOperands field n vs)[i].name = parameterStem field ++ "_" ++ toString (n + i)
  | _, [], _, h => absurd h (Nat.not_lt_zero _)
  | _, _ :: _, 0, _ => rfl
  | n, _ :: vs, i + 1, h => by
    have hrest := name_nameOperands field (n + 1) vs i (Nat.lt_of_succ_lt_succ h)
    rw [Nat.add_right_comm, Nat.add_assoc] at hrest
    exact hrest

theorem numbered_nil (fields : List String) : Numbered fields [] := fun _ h => absurd h (Nat.not_lt_zero _)

theorem Numbered.bindOperands {fields : List String} {ps : List Parameter} (hps : Numbered fields ps) {field : String}
    (hfield : field ∈ fields) (vs : List Value) : Numbered fields (bindOperands ps field vs) := by
  intro i h
  unfold PageQuery.bindOperands at h ⊢
  by_cases hi : i < ps.length
  · rw [List.getElem_append_left hi]
    exact hps i hi
  · rw [List.getElem_append_right (by omega)]
    refine ⟨field, hfield, ?_⟩
    rw [name_nameOperands, Nat.add_sub_cancel' (by omega)]

theorem numbered_inj {l l' : String} {m n : Nat} (h : l ++ "_" ++ toString m = l' ++ "_" ++ toString n) : m = n := by
  have hlast : ∀ l : String, (l ++ "_").toList.getLast? = some '_' := fun l => by simp [String.toList_append]
  have hstem : l ++ "_" = l' ++ "_" := by
    rw [← bareLabel_numbered (hlast l) (by decide) m, h, bareLabel_numbered (hlast l') (by decide) n]
  rw [hstem] at h
  have hlist := congrArg String.toList h
  simp only [String.toList_append] at hlist
  have hdigits := congrArg (fun cs => Nat.ofDigitChars 10 cs 0) (List.append_cancel_left hlist)
  simpa [Nat.toString_eq_ofList_toDigits] using hdigits

theorem Numbered.nodup {fields : List String} {ps : List Parameter} (h : Numbered fields ps) :
    (ps.map Parameter.name).Nodup := by
  rw [List.nodup_iff_injective_get]
  intro i j hij
  obtain ⟨f, -, hi⟩ := h i (by simpa using i.isLt)
  obtain ⟨g, -, hj⟩ := h j (by simpa using j.isLt)
  simp only [List.get_eq_getElem, List.getElem_map, hi, hj] at hij
  exact Fin.ext (numbered_inj hij)

/-- Compiling binds some operands under the name of the field, also when it fails. -/
theorem parameters_compile (s : Scope) (field : String) (c : Criterion) (ps : List Parameter) :
    ∃ vs, (compile s field c ps).parameters = bindOperands ps field vs := by
  have hterm : ∀ (s : Scope) (c : Criterion), ∃ vs,
      (compileOnTerm s field c ps).parameters = bindOperands ps field vs := fun s c => by
    rcases h : s.filterTarget field with ⟨s', e | t⟩
    · rw [compileOnTerm_of_error h]
      exact ⟨[], (bindOperands_nil ps field).symm⟩
    · exact ⟨_, parameters_compileOnTerm (by rw [h]) c ps⟩
  cases hway : c.isNegation && (s.field? field).isNone with
  | false =>
    rw [compile_direct hway]
    exact hterm s c
  | true =>
    obtain ⟨hnegation, hfield⟩ := Bool.and_eq_true_iff.1 hway
    obtain ⟨inner, rfl⟩ := Criterion.eq_negation hnegation
    rw [compile_apart hfield]
    split
    · exact ⟨[], (bindOperands_nil ps field).symm⟩
    · split
      · exact hterm s.detached inner
      · exact hterm s.opened _

theorem numbered_compileAll {fields : List String} (fs : List Filter) (hfs : ∀ f ∈ fs, f.path ∈ fields) :
    ∀ (s : Scope) (ps : List Parameter), Numbered fields ps → Numbered fields (compileAll s ps fs).parameters := by
  induction fs with
  | nil => exact fun _ _ hps => hps
  | cons f fs ih =>
    intro s ps hps
    obtain ⟨vs, hvs⟩ := parameters_compile s f.path f.criterion ps
    have hfirst : Numbered fields (compile s f.path f.criterion ps).parameters :=
      hvs ▸ hps.bindOperands (hfs f List.mem_cons_self) vs
    have hrest := ih (fun g hg => hfs g (List.mem_cons_of_mem f hg)) (compile s f.path f.criterion ps).scope _ hfirst
    simp only [compileAll]
    split
    · exact hrest
    · split
      · exact hrest
      · exact hfirst

def Request.fields (r : Request) : List String := (r.required ++ r.optional).map Filter.path

theorem numbered_restrict {s : Scope} {r : Request} {projection : Option Projection} {conditions : List Expr}
    {p : Prepared} (h : (restrict s r projection conditions).2 = .ok p) : Numbered r.fields p.parameters := by
  have hmem : ∀ f ∈ r.required ++ r.optional, f.path ∈ r.fields := fun f hf => List.mem_map_of_mem hf
  obtain ⟨must, may, -, -, rfl⟩ := restrict_ok h
  exact numbered_compileAll r.optional (fun f hf => hmem f (List.mem_append_right _ hf)) _ _
    (numbered_compileAll r.required (fun f hf => hmem f (List.mem_append_left _ hf)) _ _ (numbered_nil _))

def PagePlan.plans (plan : PagePlan) : List Plan := plan.data :: plan.count.toList

/-- **The parameters of a build are numbered through**, those of the total like those of the rows. -/
theorem numbered_build {catalog : Catalog} {root : Entity} {caps : Capabilities} {r : Request} {wantCount : Bool}
    {recipe : Option Recipe} {requireProjection : Bool} {plan : PagePlan}
    (h : (PagePlan.build catalog root caps r wantCount recipe requireProjection).2 = .ok plan) :
    ∀ q ∈ plan.plans, Numbered r.fields q.parameters := by
  obtain ⟨p, hprepare, hdata, hcount⟩ := build_ok h
  obtain ⟨s, orders, hparts⟩ := dataPlan_ok hdata
  have hp : Numbered r.fields p.parameters := by
    rcases prepare_ok hprepare with ⟨-, hp⟩ | ⟨x, st, -, -, hp⟩
    · exact numbered_restrict hp
    · exact numbered_restrict hp
  intro q hq
  rcases List.mem_cons.1 hq with rfl | hq
  · rw [hparts.parameters]
    exact hp
  · cases wantCount with
    | false =>
      rw [count_eq_none h] at hq
      cases hq
    | true =>
      obtain ⟨count, hsome, hcount⟩ := hcount rfl
      rw [hsome] at hq
      rw [List.mem_singleton.1 hq]
      rcases countPlan_ok hprepare hcount with ⟨-, -, hnone⟩ | ⟨-, -, rfl⟩ | ⟨-, -, hagain⟩
      · rw [hnone]
        exact numbered_nil _
      · exact hp
      · obtain ⟨-, rfl⟩ := hagain exchange keepsBehind_exchange exchange_dataLabel
        exact hp

/-! ## Compiled criteria -/

/-- What a criterion that compiled has bound, and how its predicate holds it. -/
theorem compile_accounts {s : Scope} {field : String} {c : Criterion} {ps : List Parameter} {p : Predicate}
    (h : (compile s field c ps).outcome = .ok p) :
    ∃ t, s.tested field c = .ok t ∧
      (compile s field c ps).parameters = bindOperands ps field (c.build t).operands ∧
      p.expr.operands.Sublist (c.build t).operands ∧ (c.ListsBuild t → p.expr.operands = (c.build t).operands) ∧
      (boundValues t.expr.tokens = [] → boundValues p.expr.tokens = p.expr.operands ∨
        ∃ count, boundValues p.expr.tokens = .int32 1 :: (p.expr.operands ++ count) ∧
          (count = [] ∨ ∃ n, count = [.int64 n])) := by
  cases htested : s.tested field c with
  | error e =>
    rw [compile_of_tested_error htested] at h
    cases h
  | ok t =>
    refine ⟨t, rfl, ?_⟩
    cases hbuilt : (c.build t).outcome with
    | error fault =>
      rw [compile_of_fault htested hbuilt] at h
      cases h
    | ok b =>
      obtain ⟨hparameters, p', hp', hof⟩ := compile_of_build htested hbuilt ps
      rw [h] at hp'
      cases hp'
      refine ⟨hparameters, ?_⟩
      clear hparameters
      cases hof with
      | @asked _ u b hsame hb =>
        obtain ⟨hsublist, hall⟩ := Criterion.operands_build u c b hb
        have hvalues := Criterion.build_yields testable_bound (t := u)
        rcases hsame with rfl | ⟨f, l, column, rfl, hexpr⟩
        · exact ⟨hsublist, hall, fun hnone => .inl (hvalues hnone c b hb)⟩
        · rw [Criterion.operands_relabel, Criterion.listsBuild_relabel]
          have hnone : boundValues u.expr.tokens = [] := by
            rw [hexpr]
            simp [Expr.col, Expr.tokens, Column.tokens, boundValues]
          exact ⟨hsublist, hall, fun _ => .inl (hvalues hnone c b hb)⟩
      | @absent c outer inner b hb =>
        obtain ⟨hsublist, hall⟩ := Criterion.operands_build t c b hb
        rw [Criterion.build_not]
        simp only [operands_nonexistence, Criterion.ListsBuild]
        refine ⟨hsublist, hall, fun hnone => .inr ⟨_, ?_, boundValues_countTest (p := predicateOf field t b) ?_⟩⟩
        · have hvalues : boundValues b.expr.tokens = b.expr.operands :=
            Criterion.build_yields testable_bound hnone c b hb
          rw [boundValues_nonexistence]
          exact congrArg (fun vs => Value.int32 1 :: (vs ++ _)) hvalues
        · intro m hm
          obtain ⟨n, -, rfl⟩ := Option.map_eq_some_iff.1 hm
          exact hnone

/-- **Parameters account for operands.**  A criterion that compiles has bound its operands behind those already there,
each under the field's name and its number in the whole list; the operands of its predicate stand among them in order,
and are all of them if the lists in the criterion build.  On a term that binds nothing itself, the predicate binds
nothing else but the 1 selected in a subquery and a count of its groups.  The parameters of a build are numbered through
and have different names. -/
theorem parameters_account_for_operands :
    (∀ (s : Scope) (field : String) (c : Criterion) (ps : List Parameter) (p : Predicate),
      (compile s field c ps).outcome = .ok p →
      ∃ t more, s.tested field c = .ok t ∧ (compile s field c ps).parameters = ps ++ more ∧
        (∀ (i : Nat) (h : i < more.length),
          more[i].name = parameterStem field ++ "_" ++ toString (ps.length + i)) ∧
        p.expr.operands.Sublist (more.map Parameter.value) ∧
        (c.ListsBuild t → p.expr.operands = more.map Parameter.value) ∧
        (boundValues t.expr.tokens = [] → boundValues p.expr.tokens = p.expr.operands ∨
          ∃ count, boundValues p.expr.tokens = .int32 1 :: (p.expr.operands ++ count) ∧
            (count = [] ∨ ∃ n, count = [.int64 n]))) ∧
    ∀ (catalog : Catalog) (root : Entity) (caps : Capabilities) (r : Request) (wantCount : Bool)
      (recipe : Option Recipe) (requireProjection : Bool) (plan : PagePlan),
      (PagePlan.build catalog root caps r wantCount recipe requireProjection).2 = .ok plan →
      ∀ q ∈ plan.plans, Numbered r.fields q.parameters ∧ (q.parameters.map Parameter.name).Nodup := by
  refine ⟨fun s field c ps p h => ?_, fun catalog root caps r wantCount recipe requireProjection plan h q hq => ?_⟩
  · obtain ⟨t, htested, hparameters, hsublist, hall, hbound⟩ := compile_accounts h
    refine ⟨t, nameOperands field ps.length (c.build t).operands, htested, hparameters,
      name_nameOperands field ps.length _, ?_, ?_, hbound⟩
    · rw [values_nameOperands]
      exact hsublist
    · rw [values_nameOperands]
      exact hall
  · have hnumbered := numbered_build h q hq
    exact ⟨hnumbered, hnumbered.nodup⟩

namespace Sample

def halfReadable : Criterion :=
  .alternatives [.numeric (.between (.integer 1) (.text "abc")), .value (.integer 5)]

def adaWithoutBoth : Request :=
  { Request.all with required := [⟨"name", .value (.text "Ada")⟩, ⟨"orders.items", .negation bothItems⟩] }

end Sample

open Sample in
/-- The 1 bound for the unreadable range stays behind without a place in the predicate; a list of items and the name
before it are all in their places. -/
theorem left_over_operand :
    (∃ p, (compile (Scope.new catalog person dataLabel) "orders.amount" halfReadable []).outcome = .ok p ∧
      p.expr.operands.Sublist
        ((compile (Scope.new catalog person dataLabel) "orders.amount" halfReadable []).parameters.map
          Parameter.value) ∧
      p.expr.operands = [.int64 5] ∧
      (compile (Scope.new catalog person dataLabel) "orders.amount" halfReadable []).parameters =
        [⟨"orders_amount_0", .int64 1⟩, ⟨"orders_amount_1", .int64 5⟩]) ∧
    ∃ plan, (PagePlan.build catalog person Backend.postgres.capabilities adaWithoutBoth true none false).2 =
        .ok plan ∧
      plan.data.parameters.map Parameter.name = ["name_0", "orders_items_1", "orders_items_2"] ∧
      ∀ q ∈ plan.plans, (q.parameters.map Parameter.name).Nodup := by
  obtain ⟨hcompiled, hbuilt⟩ := parameters_account_for_operands
  obtain ⟨p, hp, hoperands⟩ := exists_ok (P := fun p : Predicate => p.expr.operands = [.int64 5])
    (x := (compile (Scope.new catalog person dataLabel) "orders.amount" halfReadable []).outcome)
    (by decide +kernel)
  obtain ⟨plan, hplan, hnames⟩ := exists_ok
    (P := fun plan : PagePlan =>
      plan.data.parameters.map Parameter.name = ["name_0", "orders_items_1", "orders_items_2"])
    (x := (PagePlan.build catalog person Backend.postgres.capabilities adaWithoutBoth true none false).2)
    (by decide +kernel)
  obtain ⟨t, more, -, hmore, -, hsublist, -⟩ := hcompiled _ _ _ _ p hp
  rw [List.nil_append] at hmore
  rw [← hmore] at hsublist
  exact ⟨⟨p, hp, hsublist, hoperands, by decide +kernel⟩, plan, hplan, hnames,
    fun q hq => (hbuilt _ _ _ _ _ _ _ plan hplan q hq).2⟩

end PageQuery
