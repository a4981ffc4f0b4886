import PageQuery.Proofs.Membership
import PageQuery.Proofs.Operands
/-!
# Operands have the type of what they are compared with

Literals are read leniently, numbers and truth values out of text and variants by name or by place.  But whatever way an
operand comes in, by a structured criterion, a plain literal or a list of values, it is first brought to the type of the
term tested.  On an enumeration there are operands of two kinds: variants, and the texts of matches without regard to
case, which need not be variants.
-/
namespace PageQuery

/-! ## Operands that a type admits -/

/-- The operand of a text match: its LIKE pattern, or its text in lower case where equality will do. -/
def TextMatch.operand (m : TextMatch) : String := m.like?.getD (lowercase m.pattern)

mutual

def Criterion.textMatches : Criterion → List TextMatch
  | .textMatch m => [m]
  | .negation inner => inner.textMatches
  | .alternatives items => Criterion.textMatchesAll items
  | .null | .value _ | .numeric _ | .enumerated _ | .boolean _ => []

def Criterion.textMatchesAll : List Criterion → List TextMatch
  | [] => []
  | c :: cs => c.textMatches ++ Criterion.textMatchesAll cs

end

/-- The operands that a type admits beside some text matches: its own values, which for an enumeration are the names of
its variants and the operands of the matches. -/
def ValueType.Admits (ms : List TextMatch) : ValueType → Value → Prop
  | .enumerated e, .text s => s ∈ e.variants ∨ ∃ m ∈ ms, s = m.operand
  | t, v => t.Holds v

namespace ValueType
variable {ms ns : List TextMatch} {t : ValueType} {v : Value}

theorem Admits.mono (hsub : ms ⊆ ns) (h : t.Admits ms v) : t.Admits ns v := by
  cases t with
  | enumerated e =>
    cases v with
    | text s => exact h.imp_right fun ⟨m, hm, hs⟩ => ⟨m, hsub hm, hs⟩
    | boolean | int32 | int64 | uint64 | double => cases h
  | integer | float | text | boolean | reference => exact h

theorem admits_variant {e : EnumType} {s : String} (h : s ∈ e.variants) :
    (ValueType.enumerated e).Admits ms (.text s) := .inl h

theorem admits_match {m : TextMatch} (ht : t.isTextual = true) (hm : m ∈ ms) : t.Admits ms (.text m.operand) := by
  cases t with
  | text => exact trivial
  | enumerated e => exact .inr ⟨m, hm, rfl⟩
  | integer | float | boolean | reference => cases ht

theorem not_admits_reference {entity : String} : ¬(ValueType.reference entity).Admits ms v := fun h => h

end ValueType

namespace Literal
variable {l : Literal} {ms : List TextMatch}

theorem toNumber_admits {t : ValueType} {v : Value} (h : l.toNumber t = .ok v) : t.Admits ms v := by
  cases t with
  | integer => exact (toElement_holds (t := .integer) h : ValueType.Holds .integer v)
  | float => exact (toElement_holds (t := .float) h : ValueType.Holds .float v)
  | text | boolean | enumerated | reference => cases h

theorem toVariant_mem {e : EnumType} {s : String} (h : l.toVariant e = .ok s) : s ∈ e.variants := by
  unfold toVariant at h
  simp only at h
  split at h
  · next token =>
    split at h
    · next v hv =>
      cases h
      exact EnumType.resolve?_mem hv
    · cases h
  · next n =>
    split at h
    · next v hv =>
      cases h
      exact EnumType.byOrdinal?_mem hv
    · cases h
  · cases h

theorem toElement_admits {t : ValueType} {v : Value} (h : l.toElement t = .ok v) : t.Admits ms v := by
  have hholds := toElement_holds h
  cases t with
  | enumerated e =>
    obtain ⟨s, hs, rfl⟩ := map_ok h
    exact ValueType.admits_variant (toVariant_mem hs)
  | integer | float | text | boolean | reference => exact hholds

end Literal

theorem variantsOf_mem {e : EnumType} : ∀ {ls : List Literal} {vs : List String}, variantsOf e ls = .ok vs →
    ∀ s ∈ vs, s ∈ e.variants
  | [], _, h, s, hs => by
    cases h
    cases hs
  | l :: ls, vs, h, s, hs => by
    obtain ⟨v, ws, hl, hls, rfl⟩ := variantsOf_cons h
    rcases List.mem_cons.1 hs with rfl | hs
    · exact Literal.toVariant_mem hl
    · exact variantsOf_mem hls s hs

theorem elementsOf_admits {ms : List TextMatch} {t : ValueType} : ∀ {cs : List Criterion} {vs : List Value},
    elementsOf t cs = .ok vs → ∀ v ∈ vs, t.Admits ms v
  | [], _, h, v, hv => by
    cases h
    cases hv
  | c :: cs, vs, h, v, hv => by
    obtain ⟨l, w, ws, rfl, hl, hcs, rfl⟩ := elementsOf_cons h
    rcases List.mem_cons.1 hv with rfl | hv
    · exact Literal.toElement_admits hl
    · exact elementsOf_admits hcs v hv

theorem mem_of_mem_distinct {vs : List Value} {v : Value} (h : v ∈ Value.distinct vs) : v ∈ vs := by
  have hfold : ∀ (vs kept : List Value),
      v ∈ vs.foldl (fun kept v => if kept.any v.same then kept else kept ++ [v]) kept → v ∈ kept ∨ v ∈ vs := by
    intro vs
    induction vs with
    | nil => exact fun _ h => .inl h
    | cons w vs ih =>
      intro kept h
      rw [List.foldl_cons] at h
      rcases ih _ h with h | h
      · split at h
        · exact .inl h
        · rcases List.mem_append.1 h with h | h
          · exact .inl h
          · rw [List.mem_singleton.1 h]
            exact .inr List.mem_cons_self
      · exact .inr (List.mem_cons_of_mem w h)
  exact (hfold vs [] h).resolve_left List.not_mem_nil

/-! ## What is bound -/

def Binding.Binds {α : Type} (P : Value → Prop) (x : Binding α) : Prop := ∀ v ∈ x.operands, P v

namespace Binding
variable {α β : Type} {P : Value → Prop}

theorem binds_pure (a : α) : (Pure.pure a : Binding α).Binds P := fun _ hv => (List.not_mem_nil hv).elim

theorem binds_fault (e : CriterionFault) : (fault e : Binding α).Binds P := fun _ hv => (List.not_mem_nil hv).elim

theorem binds_bind {x : Binding α} {k : α → Binding β} (hx : x.Binds P) (hk : ∀ a, x.outcome = .ok a → (k a).Binds P) :
    (x >>= k).Binds P := by
  obtain ⟨vs, e | a⟩ := x
  · exact hx
  · intro v hv
    rcases List.mem_append.1 hv with hv | hv
    · exact hx v hv
    · exact hk a rfl v hv

theorem binds_ofExcept (x : Except CriterionFault α) : (ofExcept x).Binds P := fun _ hv => (List.not_mem_nil hv).elim

theorem binds_operand {x : Except CriterionFault Value} (h : ∀ v, x = .ok v → P v) : (operand x).Binds P := by
  cases x with
  | error e => exact binds_fault e
  | ok v =>
    intro w hw
    rw [List.mem_singleton.1 hw]
    exact h v rfl

theorem binds_operandList {vs : List Value} (h : ∀ v ∈ vs, P v) : (operandList vs).Binds P := h

end Binding

section
variable {ms : List TextMatch}

open Binding

theorem NumericTest.build_binds (test : NumericTest) (e : Expr) (t : ValueType) :
    (test.build e t).Binds (t.Admits ms) := by
  have hnumber : ∀ l : Literal, (operand (l.toNumber t)).Binds (t.Admits ms) := fun l =>
    binds_operand fun v hv => Literal.toNumber_admits hv
  cases test with
  | equal l | below l | above l => exact binds_bind (hnumber l) fun v _ => binds_pure _
  | between low high =>
    exact binds_bind (hnumber low) fun v _ => binds_bind (hnumber high) fun w _ => binds_pure _

theorem buildVariants_binds (candidates : List Literal) (e : Expr) (t : ValueType) :
    (buildVariants candidates e t).Binds (t.Admits ms) := by
  unfold buildVariants
  cases t with
  | enumerated enum =>
    refine binds_bind (binds_ofExcept _) fun vs hvs => ?_
    have hvariants : ∀ v ∈ Value.distinct (vs.map .text), (ValueType.enumerated enum).Admits ms v := fun v hv => by
      obtain ⟨s, hs, rfl⟩ := List.mem_map.1 (mem_of_mem_distinct hv)
      exact ValueType.admits_variant (variantsOf_mem hvs s hs)
    generalize Value.distinct (vs.map .text) = values at hvariants
    split
    · exact binds_fault _
    · refine binds_bind (binds_operand fun v hv => ?_) fun v _ => binds_pure _
      cases hv
      exact hvariants _ List.mem_cons_self
    · exact binds_bind (binds_operandList hvariants) fun vs _ => binds_pure _
  | integer | float | boolean | text | reference => exact binds_fault _

theorem buildTruth_binds (b : Bool) (e : Expr) (t : ValueType) : (buildTruth b e t).Binds (t.Admits ms) := by
  unfold buildTruth
  split
  · next ht =>
    refine binds_bind (binds_operand fun v hv => ?_) fun v _ => binds_pure _
    cases hv
    rw [ht]
    exact (trivial : ValueType.Holds .boolean (.boolean b))
  · exact binds_fault _

theorem TextMatch.build_binds {m : TextMatch} {t : ValueType}
    (hm : t.isTextual = true → t.Admits ms (.text m.operand)) (e : Expr) : (m.build e t).Binds (t.Admits ms) := by
  unfold TextMatch.operand at hm
  unfold TextMatch.build
  split
  · next ht =>
    have hadmits := hm ht
    cases hlike : m.like? with
    | none =>
      rw [hlike] at hadmits
      exact binds_bind (binds_operand fun v hv => by cases hv; exact hadmits) fun v _ => binds_pure _
    | some pattern =>
      rw [hlike] at hadmits
      exact binds_bind (binds_operand fun v hv => by cases hv; exact hadmits) fun v _ => binds_pure _
  · exact binds_fault _

theorem buildLiteral_binds (l : Literal) (e : Expr) (t : ValueType) : (buildLiteral l e t).Binds (t.Admits ms) := by
  have htext : ∀ s, ValueType.Admits ms .text (.text s) := fun _ => trivial
  unfold buildLiteral
  split
  all_goals with_reducible first
    | exact buildVariants_binds _ _ _
    | exact NumericTest.build_binds _ _ _
    | exact binds_bind (binds_ofExcept _) fun b _ => buildTruth_binds b _ _
    | exact TextMatch.build_binds (fun _ => htext _) _
    | exact binds_fault _

theorem buildMembership_binds (c : Criterion) (e : Expr) (t : ValueType) :
    (buildMembership c e t).Binds (t.Admits ms) := by
  cases c with
  | alternatives items =>
    refine binds_bind (binds_ofExcept _) fun vs hvs => binds_bind (binds_operandList fun v hv => ?_) fun _ _ =>
      binds_pure _
    exact elementsOf_admits hvs v (mem_of_mem_distinct hv)
  | null | value | negation | numeric | enumerated | boolean | textMatch => exact binds_fault _

end

mutual

/-- **A criterion binds only what the type of its term admits**, also where it fails. -/
theorem Criterion.build_binds (t : Term) : ∀ c : Criterion, (c.build t).Binds (t.type.Admits c.textMatches)
  | .negation inner => by
    rw [Criterion.build_not]
    simp only [Criterion.textMatches]
    exact Criterion.build_binds t inner
  | .null => by
    simp only [Criterion.build]
    exact Binding.binds_pure _
  | .alternatives items => by
    simp only [Criterion.build, Criterion.textMatches]
    split
    · exact buildMembership_binds _ _ _
    · have hall := Criterion.buildAll_binds t items
      unfold anyBuilt
      split <;> exact hall
  | .value l => by
    simp only [Criterion.build]
    split
    · exact buildMembership_binds _ _ _
    · exact Binding.binds_bind (buildLiteral_binds l _ _) fun _ _ => Binding.binds_pure _
  | .numeric test => by
    simp only [Criterion.build]
    split
    · exact buildMembership_binds _ _ _
    · exact Binding.binds_bind (NumericTest.build_binds test _ _) fun _ _ => Binding.binds_pure _
  | .enumerated candidates => by
    simp only [Criterion.build]
    split
    · exact buildMembership_binds _ _ _
    · exact Binding.binds_bind (buildVariants_binds candidates _ _) fun _ _ => Binding.binds_pure _
  | .boolean b => by
    simp only [Criterion.build]
    split
    · exact buildMembership_binds _ _ _
    · exact Binding.binds_bind (buildTruth_binds b _ _) fun _ _ => Binding.binds_pure _
  | .textMatch m => by
    simp only [Criterion.build, Criterion.textMatches]
    split
    · exact buildMembership_binds _ _ _
    · exact Binding.binds_bind (TextMatch.build_binds (fun ht => ValueType.admits_match ht List.mem_cons_self) _)
        fun _ _ => Binding.binds_pure _

theorem Criterion.buildAll_binds (t : Term) : ∀ cs : List Criterion,
    ∀ v ∈ (Criterion.buildAll t cs).1, t.type.Admits (Criterion.textMatchesAll cs) v
  | [] => by simp [Criterion.buildAll]
  | c :: cs => by
    have hc := Criterion.build_binds t c
    have hcs := Criterion.buildAll_binds t cs
    simp only [Criterion.buildAll, Criterion.textMatchesAll]
    have happend : ∀ v ∈ (c.build t).operands ++ (Criterion.buildAll t cs).1,
        t.type.Admits (c.textMatches ++ Criterion.textMatchesAll cs) v := fun v hv => by
      rcases List.mem_append.1 hv with hv | hv
      · exact (hc v hv).mono (List.subset_append_left _ _)
      · exact (hcs v hv).mono (List.subset_append_right _ _)
    split <;> exact happend

end

/-! ## Compiled criteria -/

theorem Scope.tested_type {s : Scope} (hs : s.fields = []) {path : String} {c : Criterion} {t : Term}
    (h : s.tested path c = .ok t) :
    ∃ u, (s.filterTarget path).2 = .ok u ∧ u.type = t.type ∧ ∃ l column, t.expr = Expr.col l column := by
  have hcolumn : ∀ {s : Scope} {t : Term}, s.fields = [] → (s.filterTarget path).2 = .ok t →
      ∃ l column, t.expr = Expr.col l column := fun {s t} hs ht => by
    obtain ⟨a, -, -, htrace⟩ := resolveMarked_ok hs ht
    obtain ⟨-, l, column, hexpr, -⟩ := (trace_made s _).2 t htrace
    exact ⟨l, column, hexpr⟩
  unfold tested at h
  split at h
  · obtain ⟨l, column, hexpr⟩ := hcolumn (s := s.detached) rfl h
    rw [filterTarget_detached] at h
    obtain ⟨u, hu, rfl⟩ := map_ok h
    refine ⟨u, ?_, rfl, l, column, hexpr⟩
    rw [← hu]
    exact resolveMarked_congr (s := s) (t := s.base) rfl hs membershipPath path
  · exact ⟨t, h, rfl, hcolumn hs h⟩

/-- **Operands are typed.**  In a scope without projected fields, every operand of a compiled criterion is one that the
declared type of its field admits: a whole number, a finite double, a truth value, a text, or for an enumeration a
variant or the text of a match in the criterion.  A field that is an entity has no operands.  Nothing else is bound but
the 1 that a subquery selects and the count of its groups. -/
theorem operands_typed {s : Scope} (hs : s.fields = []) {field : String} {c : Criterion} {ps : List Parameter}
    {p : Predicate} (h : (compile s field c ps).outcome = .ok p) :
    ∃ t, (s.filterTarget field).2 = .ok t ∧ (∀ v ∈ p.expr.operands, t.type.Admits c.textMatches v) ∧
      (∀ entity, t.type = .reference entity → p.expr.operands = []) ∧
      (boundValues p.expr.tokens = p.expr.operands ∨
        ∃ count, boundValues p.expr.tokens = .int32 1 :: (p.expr.operands ++ count) ∧
          (count = [] ∨ ∃ n, count = [.int64 n])) := by
  obtain ⟨t, htested, -, hsublist, -, hbound⟩ := compile_accounts h
  obtain ⟨u, hu, htype, l, column, hexpr⟩ := Scope.tested_type hs htested
  have hadmits : ∀ v ∈ p.expr.operands, u.type.Admits c.textMatches v := fun v hv =>
    htype ▸ Criterion.build_binds t c v (hsublist.subset hv)
  refine ⟨u, hu, hadmits, fun entity hentity => ?_, hbound ?_⟩
  · rw [hentity] at hadmits
    exact List.eq_nil_iff_forall_not_mem.2 fun v hv => ValueType.not_admits_reference (hadmits v hv)
  · rw [hexpr]
    simp [Expr.col, Expr.tokens, Column.tokens, boundValues]

open Sample in
/-- The amount between a text and a double is one between whole numbers. -/
theorem amount_read_as_whole :
    ∃ p t, (compile (Scope.new catalog person dataLabel) "orders.amount"
        (.negation (.numeric (.between (.text " 3 ") (.float (.finite false (7 * Binary64.unitsInOne)))))) []).outcome =
          .ok p ∧
      ((Scope.new catalog person dataLabel).filterTarget "orders.amount").2 = .ok t ∧ t.type = .integer ∧
      p.expr.operands = [.int64 3, .int64 7] ∧ ∀ v ∈ p.expr.operands, t.type.Admits [] v := by
  obtain ⟨p, hp, hoperands⟩ := exists_ok (P := fun p : Predicate => p.expr.operands = [.int64 3, .int64 7])
    (x := (compile (Scope.new catalog person dataLabel) "orders.amount"
      (.negation (.numeric (.between (.text " 3 ") (.float (.finite false (7 * Binary64.unitsInOne)))))) []).outcome)
    (by decide +kernel)
  obtain ⟨t, ht, hadmits, -⟩ := operands_typed rfl hp
  obtain ⟨t', ht', htype⟩ := exists_ok (P := fun t : Term => t.type = .integer)
    (x := ((Scope.new catalog person dataLabel).filterTarget "orders.amount").2) (by decide +kernel)
  rw [ht'] at ht
  cases ht
  exact ⟨p, t, hp, ht', htype, hoperands, hadmits⟩

end PageQuery
