import PageQuery.Proofs.Shorthand
import PageQuery.Proofs.VariantNames
/-!
# Candidates of an enumeration

A criterion on an enumeration lists candidates, each a name or a place, and several may mean one variant.  It stands for
the set of the variants that are meant: these are bound once each, in the order in which they first come up, and a row
is kept if its value is one of them.  One candidate that means no variant spoils the list, wherever it stands, and then
nothing is bound.
-/
namespace PageQuery

/-! ## Each name once -/

/-- The names among `names`, each once, in the order in which they first occur. -/
structure FirstOccurrences (names vs : List String) : Prop where
  mem_iff : ∀ v, v ∈ vs ↔ v ∈ names
  ordered : vs.Pairwise fun v w => names.idxOf v < names.idxOf w

namespace FirstOccurrences
variable {names vs : List String}

theorem nodup (h : FirstOccurrences names vs) : vs.Nodup := by
  refine h.ordered.imp fun {v w} hlt hvw => ?_
  rw [hvw] at hlt
  exact Nat.lt_irrefl _ hlt

theorem unique {ws : List String} (hv : FirstOccurrences names vs) (hw : FirstOccurrences names ws) : vs = ws := by
  have hperm : vs.Perm ws := by
    rw [List.perm_ext_iff_of_nodup hv.nodup hw.nodup]
    intro v
    rw [hv.mem_iff, hw.mem_iff]
  have hasymm : ∀ v w, v ∈ vs → w ∈ ws → names.idxOf v < names.idxOf w → names.idxOf w < names.idxOf v → v = w := by
    intro v w _ _ hvw hwv
    omega
  exact hperm.eq_of_pairwise hasymm hv.ordered hw.ordered

theorem nil : FirstOccurrences [] [] := ⟨fun _ => Iff.rfl, .nil⟩

theorem concat (h : FirstOccurrences names vs) (v : String) :
    FirstOccurrences (names ++ [v]) (if v ∈ vs then vs else vs ++ [v]) := by
  have hstays : ∀ w ∈ vs, (names ++ [v]).idxOf w = names.idxOf w := fun w hw =>
    List.idxOf_append_of_mem ((h.mem_iff w).1 hw)
  have hordered : vs.Pairwise fun w x => (names ++ [v]).idxOf w < (names ++ [v]).idxOf x := by
    refine h.ordered.imp_of_mem fun {w x} hw hx hlt => ?_
    rwa [hstays w hw, hstays x hx]
  by_cases hv : v ∈ vs
  · rw [if_pos hv]
    refine ⟨fun w => ?_, hordered⟩
    rw [List.mem_append, List.mem_singleton, h.mem_iff]
    constructor
    · exact .inl
    · rintro (hw | rfl)
      · exact hw
      · exact (h.mem_iff w).1 hv
  · have hnew : v ∉ names := fun hmem => hv ((h.mem_iff v).2 hmem)
    rw [if_neg hv]
    refine ⟨fun w => by rw [List.mem_append, List.mem_append, h.mem_iff], ?_⟩
    refine List.pairwise_append.2 ⟨hordered, List.pairwise_singleton _ v, fun w hw x hx => ?_⟩
    rw [List.mem_singleton.1 hx, hstays w hw, List.idxOf_append_of_notMem hnew]
    have := List.idxOf_lt_length_of_mem ((h.mem_iff w).1 hw)
    omega

end FirstOccurrences

theorem Value.distinct_concat (vs : List Value) (v : Value) :
    Value.distinct (vs ++ [v]) =
      if (Value.distinct vs).any v.same then Value.distinct vs else Value.distinct vs ++ [v] := by
  unfold distinct
  rw [List.foldl_append]
  rfl

/-- **Leaving out what occurs earlier** leaves names in the order in which they first occur. -/
theorem distinct_texts (names : List String) :
    ∃ vs, Value.distinct (names.map .text) = vs.map .text ∧ FirstOccurrences names vs := by
  induction names using List.reverseRecOn with
  | nil => exact ⟨[], rfl, .nil⟩
  | append_singleton names v ih =>
    obtain ⟨vs, hvs, hfirst⟩ := ih
    have hthere : (vs.map Value.text).any (Value.text v).same = true ↔ v ∈ vs := by
      rw [List.any_map, List.any_eq_true]
      constructor
      · rintro ⟨w, hw, hsame⟩
        have heq : Value.text v = .text w := eq_of_beq hsame
        cases heq
        exact hw
      · exact fun hv => ⟨v, hv, beq_self_eq_true (Value.text v)⟩
    refine ⟨_, ?_, hfirst.concat v⟩
    rw [List.map_append, List.map_singleton, Value.distinct_concat, hvs]
    by_cases hv : v ∈ vs
    · rw [if_pos hv, if_pos (hthere.2 hv)]
    · rw [if_neg hv, if_neg (mt hthere.1 hv), List.map_append, List.map_singleton]

/-! ## The variants that are meant -/

theorem variantsOf_eq_ok {e : EnumType} : ∀ {ls : List Literal} {names : List String},
    variantsOf e ls = .ok names ↔ List.Forall₂ (fun l v => l.toVariant e = .ok v) ls names
  | [], names => by
    rw [List.forall₂_nil_left_iff]
    exact ⟨fun h => (Except.ok.inj h).symm, fun h => congrArg Except.ok h.symm⟩
  | l :: ls, names => by
    constructor
    · intro h
      obtain ⟨v, ws, hl, hls, rfl⟩ := variantsOf_cons h
      exact .cons hl (variantsOf_eq_ok.1 hls)
    · intro h
      cases h with
      | cons hl hls =>
        simp only [variantsOf, hl, variantsOf_eq_ok.2 hls]
        rfl

theorem variantsOf_error {e : EnumType} {fault : CriterionFault} : ∀ {ls : List Literal},
    variantsOf e ls = .error fault → ∃ l ∈ ls, l.toVariant e = .error fault
  | [], h => by cases h
  | l :: ls, h => by
    cases hl : l.toVariant e with
    | error other =>
      simp only [variantsOf, hl] at h
      cases h
      exact ⟨l, List.mem_cons_self, hl⟩
    | ok v =>
      cases hls : variantsOf e ls with
      | ok names =>
        simp only [variantsOf, hl, hls] at h
        cases h
      | error other =>
        simp only [variantsOf, hl, hls] at h
        cases h
        obtain ⟨m, hm, hfault⟩ := variantsOf_error hls
        exact ⟨m, List.mem_cons_of_mem l hm, hfault⟩

theorem mem_names_iff {e : EnumType} {ls : List Literal} {names : List String}
    (h : List.Forall₂ (fun l v => l.toVariant e = .ok v) ls names) (v : String) :
    v ∈ names ↔ ∃ l ∈ ls, l.toVariant e = .ok v :=
  mem_iff_of_forall₂ (fun hv hw => Except.ok.inj (hv.symm.trans hw)) h v

/-! ## The test for variants -/

def variantTest (x : Expr) : List String → Expr
  | [v] => .compare .eq x (.value (.text v))
  | vs => .inValues x (vs.map .text)

/-- What the test for variants means: unknown without a value, and else whether the value is one of them. -/
theorem eval_variantTest (d : Dialect) (db : Store) (x : Expr) {vs : List String} (hvs : vs ≠ []) (g : List Tuple) :
    (variantTest x vs).eval d db g =
      (x.eval d db g).map fun value => .boolean (vs.any fun v => decide (d.rank value = d.rank (.text v))) := by
  have hlist : (Expr.inValues x (vs.map .text)).eval d db g =
      (x.eval d db g).map fun value => .boolean (vs.any fun v => decide (d.rank value = d.rank (.text v))) := by
    rw [Expr.eval, List.map_map]
    cases x.eval d db g with
    | none =>
      have hnone : (vs.map (some ∘ Value.text)).any (d.equal none) = false :=
        List.any_eq_false.2 fun _ _ => by simp [Dialect.equal]
      unfold Dialect.among
      rw [hnone]
      simp [hvs]
    | some value =>
      have hany : (vs.map (some ∘ Value.text)).any (d.equal (some value)) =
          vs.any fun v => decide (d.rank value = d.rank (.text v)) := by
        rw [List.any_map]
        congr 1
        funext v
        simp [Dialect.equal, Dialect.key]
      unfold Dialect.among
      rw [hany]
      cases hfound : vs.any fun v => decide (d.rank value = d.rank (.text v)) with
      | true => simp [truth, hfound]
      | false => simp [truth, hfound, hvs]
  unfold variantTest
  split
  · next v =>
    rw [Expr.eval, Expr.eval]
    cases x.eval d db g with
    | none => rfl
    | some value => simp [Dialect.compare, Dialect.test, truth]
  · exact hlist

theorem isTrue_variantTest (d : Dialect) (db : Store) (x : Expr) {vs : List String} (hvs : vs ≠ []) (g : List Tuple) :
    isTrue ((variantTest x vs).eval d db g) = true ↔
      ∃ v ∈ vs, d.equal (x.eval d db g) (some (.text v)) = true := by
  rw [eval_variantTest d db x hvs]
  cases x.eval d db g with
  | none => simp [isTrue, Dialect.equal]
  | some value => simp [isTrue, Dialect.equal, Dialect.key]

theorem eval_variantTest_congr (d : Dialect) (db : Store) (x : Expr) {vs ws : List String} (hvs : vs ≠ [])
    (hmem : ∀ v, v ∈ vs ↔ v ∈ ws) (g : List Tuple) :
    (variantTest x vs).eval d db g = (variantTest x ws).eval d db g := by
  have hws : ws ≠ [] := by
    obtain ⟨v, hv⟩ := List.exists_mem_of_ne_nil vs hvs
    exact List.ne_nil_of_mem ((hmem v).1 hv)
  have hany : ∀ p : String → Bool, vs.any p = ws.any p := by
    intro p
    rw [Bool.eq_iff_iff, List.any_eq_true, List.any_eq_true]
    simp only [hmem]
  rw [eval_variantTest d db x hvs, eval_variantTest d db x hws]
  simp only [hany]

/-! ## Building and compiling -/

theorem buildVariants_ok {enum : EnumType} {ls : List Literal} {names vs : List String}
    (hnames : variantsOf enum ls = .ok names) (hvs : Value.distinct (names.map .text) = vs.map .text) (hne : vs ≠ [])
    (x : Expr) : buildVariants ls x (.enumerated enum) = ⟨vs.map .text, .ok (variantTest x vs)⟩ := by
  simp only [buildVariants, hnames]
  show Binding.bind _ _ = _
  simp only [Binding.ofExcept, Binding.bind_ok, List.nil_append]
  rw [hvs]
  cases vs with
  | nil => exact absurd rfl hne
  | cons v vs =>
    cases vs with
    | nil => rfl
    | cons w vs =>
      have hbound : ∀ values : List Value, values ++ [] = values := List.append_nil
      exact congrArg (Binding.mk · _) (hbound _)

/-- Why candidates on a field are refused. -/
inductive CandidatesRefused (ls : List Literal) (t : ValueType) : CriterionFault → Prop
  | notEnum (h : ∀ enum, t ≠ .enumerated enum) : CandidatesRefused ls t (.typeNotEnum t)
  | none (h : ls = []) : CandidatesRefused ls t .noCandidates
  | meaningless {enum : EnumType} {l : Literal} {fault : CriterionFault} (ht : t = .enumerated enum) (hl : l ∈ ls)
      (h : l.toVariant enum = .error fault) : CandidatesRefused ls t fault

theorem CandidatesRefused.invalid {ls : List Literal} {t : ValueType} {fault : CriterionFault}
    (h : CandidatesRefused ls t fault) : fault.Invalid := by
  cases h with
  | notEnum | none => exact fun _ _ h => by cases h
  | meaningless _ _ h => exact Literal.toVariant_error h

/-- **Candidates are built to the test for the variants that they mean**, which alone are bound; or they are refused, and
nothing is. -/
theorem buildVariants_cases (ls : List Literal) (x : Expr) (t : ValueType) :
    (∃ enum names vs, t = .enumerated enum ∧ List.Forall₂ (fun l v => l.toVariant enum = .ok v) ls names ∧ ls ≠ [] ∧
        FirstOccurrences names vs ∧ vs ≠ [] ∧ buildVariants ls x t = ⟨vs.map .text, .ok (variantTest x vs)⟩) ∨
      ∃ fault, CandidatesRefused ls t fault ∧ buildVariants ls x t = ⟨[], .error fault⟩ := by
  cases t with
  | integer | float | text | boolean | reference => exact .inr ⟨_, .notEnum (fun _ h => by cases h), rfl⟩
  | enumerated enum =>
    cases hnames : variantsOf enum ls with
    | error fault =>
      obtain ⟨l, hl, hfault⟩ := variantsOf_error hnames
      refine .inr ⟨fault, .meaningless rfl hl hfault, ?_⟩
      simp only [buildVariants, hnames]
      rfl
    | ok names =>
      have hmeant := variantsOf_eq_ok.1 hnames
      cases ls with
      | nil =>
        cases hmeant
        exact .inr ⟨_, .none rfl, rfl⟩
      | cons l ls =>
        obtain ⟨vs, hvs, hfirst⟩ := distinct_texts names
        have hne : vs ≠ [] := by
          cases hmeant with
          | cons => exact List.ne_nil_of_mem ((hfirst.mem_iff _).2 List.mem_cons_self)
        exact .inl ⟨enum, names, vs, rfl, hmeant, List.cons_ne_nil l ls, hfirst, hne, buildVariants_ok hnames hvs hne x⟩

section
variable {s s₁ : Scope} {field : String} {t : Term} (htarget : s.filterTarget field = (s₁, .ok t))
  (hone : t.isCollection = false) (ls : List Literal) (ps : List Parameter)
include htarget hone

theorem compile_candidates_cases :
    (∃ enum names vs, t.type = .enumerated enum ∧ List.Forall₂ (fun l v => l.toVariant enum = .ok v) ls names ∧
        ls ≠ [] ∧ FirstOccurrences names vs ∧ vs ≠ [] ∧
        (compile s field (.enumerated ls) ps).parameters = bindOperands ps field (vs.map .text) ∧
        ∃ p, (compile s field (.enumerated ls) ps).outcome = .ok p ∧ p.expr = variantTest t.expr vs) ∨
      ∃ fault, CandidatesRefused ls t.type fault ∧ (compile s field (.enumerated ls) ps).parameters = ps ∧
        (compile s field (.enumerated ls) ps).outcome = .error (.criterion field fault) := by
  have hplain : ∀ inner, Criterion.enumerated ls ≠ .negation inner := fun inner h => by cases h
  have hbuild : (Criterion.enumerated ls).build t =
      (buildVariants ls t.expr t.type).bind fun e => Binding.pure (Built.plain e) := by
    rw [Criterion.build, if_neg (by simp [hone])]
    rfl
  rcases buildVariants_cases ls t.expr t.type with
    ⟨enum, names, vs, ht, hmeant, hls, hfirst, hne, hb⟩ | ⟨fault, hrefused, hb⟩
  · obtain ⟨hparameters, houtcome⟩ := compile_expr_ok hplain htarget ps hbuild hb
    exact .inl ⟨enum, names, vs, ht, hmeant, hls, hfirst, hne, hparameters, houtcome⟩
  · exact .inr ⟨fault, hrefused, compile_expr_fault hplain htarget ps hbuild hb⟩

theorem compile_candidates_of_ok {p : Predicate} (hp : (compile s field (.enumerated ls) ps).outcome = .ok p) :
    ∃ enum names vs, t.type = .enumerated enum ∧ List.Forall₂ (fun l v => l.toVariant enum = .ok v) ls names ∧ ls ≠ [] ∧
      FirstOccurrences names vs ∧ vs ≠ [] ∧
      (compile s field (.enumerated ls) ps).parameters = bindOperands ps field (vs.map .text) ∧
      p.expr = variantTest t.expr vs := by
  rcases compile_candidates_cases htarget hone ls ps with
    ⟨enum, names, vs, ht, hmeant, hls, hfirst, hne, hparameters, q, hq, hexpr⟩ | ⟨fault, -, -, hfault⟩
  · cases hp.symm.trans hq
    exact ⟨enum, names, vs, ht, hmeant, hls, hfirst, hne, hparameters, hexpr⟩
  · rw [hfault] at hp
    cases hp

theorem compile_candidates_of_error {e : Failure} (he : (compile s field (.enumerated ls) ps).outcome = .error e) :
    (compile s field (.enumerated ls) ps).parameters = ps ∧
      ∃ fault, e = .criterion field fault ∧ CandidatesRefused ls t.type fault := by
  rcases compile_candidates_cases htarget hone ls ps with
    ⟨-, -, -, -, -, -, -, -, -, p, hp, -⟩ | ⟨fault, hrefused, hparameters, hfault⟩
  · rw [hp] at he
    cases he
  · rw [hfault] at he
    exact ⟨hparameters, fault, (Except.error.inj he).symm, hrefused⟩

/-- **Candidates denote the set of the variants that they mean.**  They compile just if there is one, each means a
variant, and the field is of an enumeration.  Then the variants that are meant are bound, each once and in the order in
which they first come up; one is tested for equality and several as a list, and a row is kept just if its value is one of
them.  Candidates that mean the same set test for the same.  Refused, they bind nothing, and the field is named with the
fault of an invalid criterion. -/
theorem candidates_denote_variants :
    ((compile s field (.enumerated ls) ps).outcome.isOk = true ↔
        ∃ enum, t.type = .enumerated enum ∧ ls ≠ [] ∧ ∀ l ∈ ls, ∃ v, l.toVariant enum = .ok v) ∧
      (∀ enum p, t.type = .enumerated enum → (compile s field (.enumerated ls) ps).outcome = .ok p →
        ∃ names vs, List.Forall₂ (fun l v => l.toVariant enum = .ok v) ls names ∧ FirstOccurrences names vs ∧
          (compile s field (.enumerated ls) ps).parameters = bindOperands ps field (vs.map .text) ∧ vs.Nodup ∧
          (∀ v ∈ vs, v ∈ enum.variants) ∧ (∀ v, v ∈ vs ↔ ∃ l ∈ ls, l.toVariant enum = .ok v) ∧
          (∀ v, vs = [v] → p.expr = .compare .eq t.expr (.value (.text v))) ∧
          (1 < vs.length → p.expr = .inValues t.expr (vs.map .text)) ∧
          (∀ d db g, isTrue (p.expr.eval d db g) = true ↔
            ∃ v ∈ vs, d.equal (t.expr.eval d db g) (some (.text v)) = true) ∧
          ∀ ms ps' q, (compile s field (.enumerated ms) ps').outcome = .ok q →
            (∀ v, (∃ l ∈ ls, l.toVariant enum = .ok v) ↔ ∃ m ∈ ms, m.toVariant enum = .ok v) →
            ∀ d db g, p.expr.eval d db g = q.expr.eval d db g) ∧
      ∀ e, (compile s field (.enumerated ls) ps).outcome = .error e →
        (compile s field (.enumerated ls) ps).parameters = ps ∧
          ∃ fault, e = .criterion field fault ∧ fault.Invalid ∧ CandidatesRefused ls t.type fault := by
  refine ⟨?_, fun enum p ht hp => ?_, fun e he => ?_⟩
  · cases houtcome : (compile s field (.enumerated ls) ps).outcome with
    | ok p =>
      obtain ⟨enum, names, vs, ht, hmeant, hls, -⟩ := compile_candidates_of_ok htarget hone ls ps houtcome
      refine iff_of_true rfl ⟨enum, ht, hls, fun l hl => ?_⟩
      obtain ⟨v, -, hv⟩ := exists_mem_of_forall₂ hmeant l hl
      exact ⟨v, hv⟩
    | error e =>
      obtain ⟨-, fault, -, hrefused⟩ := compile_candidates_of_error htarget hone ls ps houtcome
      refine iff_of_false Bool.false_ne_true ?_
      rintro ⟨enum, ht, hls, hall⟩
      cases hrefused with
      | notEnum h => exact h enum ht
      | none h => exact hls h
      | meaningless ht' hl h =>
        cases ht.symm.trans ht'
        obtain ⟨v, hv⟩ := hall _ hl
        rw [hv] at h
        cases h
  · obtain ⟨enum', names, vs, ht', hmeant, -, hfirst, hne, hparameters, hexpr⟩ :=
      compile_candidates_of_ok htarget hone ls ps hp
    cases ht.symm.trans ht'
    have hmem : ∀ v, v ∈ vs ↔ ∃ l ∈ ls, l.toVariant enum = .ok v := fun v => by
      rw [hfirst.mem_iff, mem_names_iff hmeant]
    refine ⟨names, vs, hmeant, hfirst, hparameters, hfirst.nodup, fun v hv => ?_, hmem, ?_, ?_, fun d db g => ?_, ?_⟩
    · obtain ⟨l, -, hl⟩ := (hmem v).1 hv
      exact Literal.toVariant_mem hl
    · rintro v rfl
      exact hexpr
    · intro hmany
      rw [hexpr]
      match vs, hmany with
      | _ :: _ :: _, _ => rfl
    · rw [hexpr]
      exact isTrue_variantTest d db t.expr hne g
    · intro ms ps' q hq hsame d db g
      obtain ⟨enum'', names', ws, ht'', hmeant', -, hfirst', -, -, hexpr'⟩ :=
        compile_candidates_of_ok htarget hone ms ps' hq
      cases ht.symm.trans ht''
      rw [hexpr, hexpr']
      apply eval_variantTest_congr d db t.expr hne
      intro v
      rw [hmem, hsame, hfirst'.mem_iff, mem_names_iff hmeant']
  · obtain ⟨hparameters, fault, hfault, hrefused⟩ := compile_candidates_of_error htarget hone ls ps he
    exact ⟨hparameters, fault, hfault, hrefused.invalid, hrefused⟩

end

open Sample in
/-- A place, a name in another case and one between blanks are two variants, in the order of their first candidates; with
a candidate that is none besides, nothing is bound. -/
theorem high_and_medium_wanted :
    ∃ t, (reviewScope.filterTarget "grade").2 = .ok t ∧ t.isCollection = false ∧ t.type = .enumerated grades ∧
      (compile reviewScope "grade" (.enumerated [.integer 2, .text "Medium", .text " high ", .text "1"]) []).parameters =
        [⟨"grade_0", .text "high"⟩, ⟨"grade_1", .text "medium"⟩] ∧
      (compile reviewScope "grade" (.enumerated [.text "low", .text "top"]) []).parameters = [] := by
  rcases hfield : reviewScope.filterTarget "grade" with ⟨s₁, o⟩
  obtain ⟨t, ht, hone, htype⟩ := exists_ok (P := fun t => t.isCollection = false ∧ t.type = .enumerated grades)
    (x := (reviewScope.filterTarget "grade").2) (by decide +kernel)
  rw [hfield] at ht
  cases ht
  refine ⟨t, rfl, hone, htype, ?_, ?_⟩
  · obtain ⟨hiff, hdenotes, -⟩ := candidates_denote_variants hfield hone
      [.integer 2, .text "Medium", .text " high ", .text "1"] []
    have hmeant : List.Forall₂ (fun l v => Literal.toVariant l grades = .ok v)
        [.integer 2, .text "Medium", .text " high ", .text "1"] ["high", "medium", "high", "medium"] :=
      variantsOf_eq_ok.1 (by decide +kernel)
    obtain ⟨p, hp⟩ := exists_ok_of_isOk (hiff.2 ⟨grades, htype, List.cons_ne_nil _ _, fun l hl => by
      obtain ⟨v, -, hv⟩ := exists_mem_of_forall₂ hmeant l hl
      exact ⟨v, hv⟩⟩)
    obtain ⟨names, vs, hnames, hfirst, hparameters, -⟩ := hdenotes grades p htype hp
    obtain rfl : names = ["high", "medium", "high", "medium"] :=
      Except.ok.inj ((variantsOf_eq_ok.2 hnames).symm.trans (variantsOf_eq_ok.2 hmeant))
    have hvs : vs = ["high", "medium"] := hfirst.unique ⟨fun v => by grind, by decide⟩
    rw [hparameters, hvs]
    rfl
  · obtain ⟨hiff, -, hrefused⟩ := candidates_denote_variants hfield hone [.text "low", .text "top"] []
    obtain ⟨e, he⟩ : ∃ e, (compile reviewScope "grade" (.enumerated [.text "low", .text "top"]) []).outcome = .error e :=
      ⟨_, rfl⟩
    exact (hrefused e he).1

end PageQuery
