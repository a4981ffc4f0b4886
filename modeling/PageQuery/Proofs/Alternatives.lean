import PageQuery.Proofs.TestedTerms
/-!
# Alternatives on a path without a collection

A list of criteria asks for any of its elements that could be built, all on the one term of its path.  Alone an element
compiles to what it is in the list, but for a negation whose path crosses a to-many relation: alone that denies the
existence of a related row, and in the list it denies what it negates of one related row.  So a list is the disjunction
of its elements just if no such negation is among them, and is never that up to labels otherwise.
-/
namespace PageQuery

/-! ## Disjunctions -/

namespace Expr

theorem foldl_or_inj : ∀ {es ds : List Expr} {a b : Expr}, es.length = ds.length →
    es.foldl .or a = ds.foldl .or b → a = b ∧ es = ds
  | [], [], _, _, _, h => ⟨h, rfl⟩
  | e :: es, d :: ds, a, b, hlength, h => by
    obtain ⟨hor, rfl⟩ := foldl_or_inj (Nat.succ.inj hlength) h
    cases hor
    exact ⟨rfl, rfl⟩

theorem disjunction_inj {es ds : List Expr} (hlength : es.length = ds.length) (h : disjunction es = disjunction ds) :
    es = ds := by
  cases es with
  | nil => exact (List.length_eq_zero_iff.1 hlength.symm).symm
  | cons e es =>
    cases ds with
    | nil => cases hlength
    | cons d ds =>
      obtain ⟨rfl, rfl⟩ := foldl_or_inj (Nat.succ.inj hlength) (Option.some.inj h)
      rfl

/-- Whether the expression denies that rows exist. -/
def deniesRows : Expr → Bool
  | .not (.nonempty _) => true
  | _ => false

theorem deniesRows_relabel (f : String → String) (e : Expr) : (e.relabel f).deniesRows = e.deniesRows := by
  cases e with
  | not x => cases x <;> simp only [relabel, deniesRows]
  | column | value | call | compare | isNull | isNotNull | between | inValues | inQuery | like | and | or | nonempty
  | scalar => simp only [relabel, deniesRows]

theorem relabel_ne {a b : Expr} (h : a.deniesRows ≠ b.deniesRows) (f g : String → String) :
    a.relabel f ≠ b.relabel g := fun hsame => by
  rw [← deniesRows_relabel f, ← deniesRows_relabel g b, hsame] at h
  exact h rfl

end Expr

theorem Criterion.build_deniesRows (c : Criterion) (t : Term) :
    (c.build t).Yields fun b => (Expr.not b.expr).deniesRows = false := by
  have htested : Testable (fun _ => True) fun e => ∀ q, e ≠ .nonempty q :=
    { lower := fun _ _ => trivial
      compare := fun _ _ _ _ q h => by cases h
      between := fun _ _ _ _ q h => by cases h
      like := fun _ _ _ q h => by cases h
      among := fun _ _ _ q h => by cases h
      isNull := fun _ _ q h => by cases h
      not := fun _ _ q h => by cases h
      or := fun _ _ _ _ q h => (by cases h) }
  intro b hb
  have hne := Criterion.build_yields htested trivial c b hb
  cases hexpr : b.expr with
  | nonempty q => exact absurd hexpr (hne q)
  | column | value | call | compare | isNull | isNotNull | between | inValues | inQuery | like | not | and | or
  | scalar =>
    rfl

/-! ## Elements -/

theorem Scope.filterTarget_base {s : Scope} (hfields : s.fields = []) (path : String) :
    (s.base.filterTarget path).2 = (s.filterTarget path).2 :=
  resolveMarked_congr (s := s.base) (t := s) rfl hfields.symm membershipPath path

theorem Scope.filterTarget_column {s : Scope} {path : String} {u : Term} (hfields : s.fields = [])
    (hend : ∀ a, s.terminal path = .ok a → a.isCollection = false) (hu : (s.filterTarget path).2 = .ok u) :
    u.origin = .column := by
  obtain ⟨a, ha, -, htrace⟩ := resolveMarked_ok hfields hu
  have hplain := hend a ha
  rw [hplain, Bool.false_and, if_neg Bool.false_ne_true] at htrace
  obtain ⟨segments, p, name, marker, hparse, hwalk, hmarker, hlookup⟩ := terminal_ok ha
  obtain ⟨segments', p', j, hparse', hwalk', hleaf, -⟩ := trace_ok htrace
  rw [hparse] at hparse'
  cases hparse'
  rw [hwalk] at hwalk'
  cases hwalk'
  obtain ⟨name', marker', a', hmarker', hlookup', hcases⟩ := leaf_cases hleaf
  rw [hmarker] at hmarker'
  cases hmarker'
  rw [hlookup] at hlookup'
  cases hlookup'
  obtain ⟨-, -, c, type, -, rfl⟩ | ⟨hmany, -⟩ := hcases
  · rfl
  · rw [hplain] at hmany
    cases hmany

theorem Term.isCollection_of_column {u : Term} (hcolumn : u.origin = .column) : u.isCollection = false := by
  unfold isCollection
  rw [hcolumn]
  rfl

theorem predicateOf_column {u : Term} (hcolumn : u.origin = .column) {c : Criterion} {b : Built}
    (hb : (c.build u).outcome = .ok b) (field : String) : predicateOf field u b = ⟨field, b.expr, .row, none⟩ := by
  have hone := Term.isCollection_of_column hcolumn
  have hwanted : b.wanted = none := Criterion.build_unlisted hone c b hb
  unfold predicateOf Term.isAggregate
  rw [hcolumn, hwanted]
  rfl

theorem build_relabel_ok (f : String → String) {u : Term} {c : Criterion} {b : Built}
    (hb : (c.build u).outcome = .ok b) : (c.build (u.relabel f)).outcome = .ok (b.relabel f) := by
  rw [Criterion.build_relabel]
  simp only [Binding.mapped, hb, Except.map]

theorem build_relabel_error (f : String → String) {u : Term} {c : Criterion} {fault : CriterionFault}
    (hfault : (c.build u).outcome = .error fault) : (c.build (u.relabel f)).outcome = .error fault := by
  rw [Criterion.build_relabel]
  simp only [Binding.mapped, hfault, Except.map]

/-- The criterion denies something of a path that crosses a to-many relation. -/
def Criterion.DeniesAcross (s : Scope) (field : String) (c : Criterion) : Prop :=
  c.isNegation = true ∧ s.catalog.manyAlong s.root field = true

section
variable {s : Scope} (hfields : s.fields = []) {field : String} {u : Term} (hu : (s.filterTarget field).2 = .ok u)
include hfields hu

theorem filterTarget_detached_eq :
    (s.detached.filterTarget field).2 = .ok (u.relabel (rebase s.label s.detached.label)) := by
  rw [Scope.filterTarget_detached, Scope.filterTarget_base hfields, hu]
  rfl

theorem tested_eq (c : Criterion) : ∃ t, s.tested field c = .ok t ∧
    (t = u ∨ t = u.relabel (rebase s.label s.detached.label)) := by
  unfold Scope.tested
  split
  · exact ⟨_, filterTarget_detached_eq hfields hu, .inr rfl⟩
  · exact ⟨u, hu, .inl rfl⟩

theorem compile_unbuilt {c : Criterion} {fault : CriterionFault} (hfault : (c.build u).outcome = .error fault)
    (ps : List Parameter) : (compile s field c ps).outcome = .error (.criterion field fault) := by
  obtain ⟨t, ht, rfl | rfl⟩ := tested_eq hfields hu c
  · exact compile_of_fault ht hfault ps
  · exact compile_of_fault ht (build_relabel_error _ hfault) ps

theorem parameters_built {c : Criterion} {b : Built} (hb : (c.build u).outcome = .ok b) (ps : List Parameter) :
    (compile s field c ps).parameters = bindOperands ps field (c.build u).operands := by
  obtain ⟨t, ht, rfl | rfl⟩ := tested_eq hfields hu c
  · exact (compile_of_build ht hb ps).1
  · rw [← Criterion.operands_relabel (rebase s.label s.detached.label)]
    exact (compile_of_build ht (build_relabel_ok (rebase s.label s.detached.label) hb) ps).1

theorem compile_negation_toMany (hmany : s.catalog.manyAlong s.root field = true) {inner : Criterion} {b : Built}
    (hb : (inner.build u).outcome = .ok b) (ps : List Parameter) :
    ∃ q, (compile s field (.negation inner) ps).outcome = .ok ⟨field, .not (.nonempty q), .row, none⟩ := by
  have htarget := filterTarget_detached_eq hfields hu
  have hinner := build_relabel_ok (rebase s.label s.detached.label) hb
  have hjoins : (s.detached.filterTarget field).1.hasToManyJoins = true :=
    Scope.filterTarget_toMany (s := s.detached) rfl rfl htarget hmany
  obtain ⟨hscope, houtcome⟩ := compileOnTerm_of_build ps (Prod.ext rfl htarget) hinner
  rw [compile_apart (by rw [Scope.field?_of_fields_eq_nil hfields]; rfl), houtcome, hscope]
  simp only [hjoins, if_true]
  exact ⟨_, rfl⟩

theorem compile_negation_toOne_built (hone : s.catalog.manyAlong s.root field = false) (hcolumn : u.origin = .column)
    {inner : Criterion} {b : Built} (hb : (inner.build u).outcome = .ok b) (ps : List Parameter) :
    (compile s field (.negation inner) ps).outcome = .ok ⟨field, .not b.expr, .row, none⟩ := by
  have hinner := build_relabel_ok (rebase s.label s.detached.label) hb
  have hopened : (s.opened.filterTarget field).2 = .ok u := by
    rw [← hu]
    exact Scope.resolveMarked_congr (s := s.opened) (t := s) rfl rfl membershipPath field
  rw [compile_negation_toOne hfields hone,
    (compileOnTerm_of_build ps (Prod.ext rfl (filterTarget_detached_eq hfields hu)) hinner).2]
  simp only
  rw [(compileOnTerm_of_build ps (Prod.ext rfl hopened) (build_negation hb)).2,
    predicateOf_column hcolumn (build_negation hb)]
  rfl

/-- **An element alone** is what it was built to on the term of its path, or denies that rows exist. -/
theorem compile_built (hcolumn : u.origin = .column) {c : Criterion} {b : Built} (hb : (c.build u).outcome = .ok b)
    (ps : List Parameter) : ∃ e, (compile s field c ps).outcome = .ok ⟨field, e, .row, none⟩ ∧
      (¬c.DeniesAcross s field → e = b.expr) ∧ (c.DeniesAcross s field → b.expr.deniesRows ≠ e.deniesRows) := by
  cases hnegation : c.isNegation with
  | false =>
    have hnot : ¬c.DeniesAcross s field := fun h => Bool.false_ne_true (hnegation.symm.trans h.1)
    refine ⟨b.expr, ?_, fun _ => rfl, fun h => absurd h hnot⟩
    rw [compile_direct (by rw [hnegation]; rfl), (compileOnTerm_of_build ps (Prod.ext rfl hu) hb).2,
      predicateOf_column hcolumn hb]
  | true =>
    obtain ⟨inner, rfl⟩ := Criterion.eq_negation hnegation
    rw [Criterion.build_not] at hb
    obtain ⟨b', hb'⟩ := outcome_of_mapped hb
    have hexpr : b.expr = .not b'.expr := by
      simp only [Binding.mapped, hb', Except.map, Except.ok.injEq] at hb
      rw [← hb]
      rfl
    cases hmany : s.catalog.manyAlong s.root field with
    | false =>
      refine ⟨.not b'.expr, compile_negation_toOne_built hfields hu hmany hcolumn hb' ps, fun _ => hexpr.symm,
        fun h => ?_⟩
      rw [h.2] at hmany
      cases hmany
    | true =>
      obtain ⟨q, hq⟩ := compile_negation_toMany hfields hu hmany hb' ps
      have hdenies : b.expr.deniesRows = false := by
        rw [hexpr]
        exact inner.build_deniesRows u b' hb'
      exact ⟨_, hq, fun h => absurd ⟨rfl, hmany⟩ h, fun _ hsame => Bool.false_ne_true (hdenies.symm.trans hsame)⟩

/-! ## Lists -/

def alone (s : Scope) (field : String) (ps : List Parameter) (cs : List Criterion) : List Predicate :=
  cs.filterMap fun c => (compile s field c ps).outcome.toOption

end

section
variable {s : Scope} (hfields : s.fields = []) {field : String} {u : Term} (hu : (s.filterTarget field).2 = .ok u)
  (ps : List Parameter)
include hfields hu

theorem buildAll_cons_error {c : Criterion} {fault : CriterionFault} (hb : (c.build u).outcome = .error fault)
    (cs : List Criterion) : (Criterion.buildAll u (c :: cs)).2 = (Criterion.buildAll u cs).2 ∧
      alone s field ps (c :: cs) = alone s field ps cs := by
  constructor
  · simp only [Criterion.buildAll, hb]
  · unfold alone
    rw [List.filterMap_cons, compile_unbuilt hfields hu hb]
    rfl

variable (hcolumn : u.origin = .column)
include hcolumn

theorem isOk_compile_iff (c : Criterion) :
    (compile s field c ps).outcome.isOk = true ↔ (c.build u).outcome.isOk = true := by
  cases hb : (c.build u).outcome with
  | error fault =>
    rw [compile_unbuilt hfields hu hb]
    exact iff_of_false Bool.false_ne_true Bool.false_ne_true
  | ok b =>
    obtain ⟨e, he, -⟩ := compile_built hfields hu hcolumn hb ps
    rw [he]
    exact iff_of_true rfl rfl

theorem buildAll_cons_ok {c : Criterion} {b : Built} (hb : (c.build u).outcome = .ok b) (cs : List Criterion) :
    (Criterion.buildAll u (c :: cs)).2 = b.expr :: (Criterion.buildAll u cs).2 ∧
      ∃ e, alone s field ps (c :: cs) = ⟨field, e, .row, none⟩ :: alone s field ps cs ∧
        (¬c.DeniesAcross s field → e = b.expr) ∧ (c.DeniesAcross s field → b.expr.deniesRows ≠ e.deniesRows) := by
  obtain ⟨e, he, hexpr⟩ := compile_built hfields hu hcolumn hb ps
  refine ⟨?_, e, ?_, hexpr⟩
  · simp only [Criterion.buildAll, hb]
  · unfold alone
    rw [List.filterMap_cons, he]
    rfl

theorem length_alone (cs : List Criterion) :
    (alone s field ps cs).length = (Criterion.buildAll u cs).2.length := by
  induction cs with
  | nil => rfl
  | cons c cs ih =>
    cases hb : (c.build u).outcome with
    | error fault =>
      obtain ⟨hbuilt, halone⟩ := buildAll_cons_error hfields hu ps hb cs
      rw [hbuilt, halone, ih]
    | ok b =>
      obtain ⟨hbuilt, e, halone, -⟩ := buildAll_cons_ok hfields hu ps hcolumn hb cs
      rw [hbuilt, halone, List.length_cons, List.length_cons, ih]

theorem mem_alone {cs : List Criterion} {q : Predicate} (hq : q ∈ alone s field ps cs) :
    q.field = field ∧ q.level = .row ∧ q.membership = none := by
  obtain ⟨c, -, hc⟩ := List.mem_filterMap.1 hq
  cases hb : (c.build u).outcome with
  | error fault =>
    rw [compile_unbuilt hfields hu hb] at hc
    cases hc
  | ok b =>
    obtain ⟨e, he, -⟩ := compile_built hfields hu hcolumn hb ps
    rw [he] at hc
    cases hc
    exact ⟨rfl, rfl, rfl⟩

theorem exprs_alone : ∀ {cs : List Criterion},
    (∀ c ∈ cs, (c.build u).outcome.isOk = true → ¬c.DeniesAcross s field) →
      (alone s field ps cs).map Predicate.expr = (Criterion.buildAll u cs).2
  | [], _ => rfl
  | c :: cs, h => by
    have hrest := exprs_alone fun c' hc' => h c' (List.mem_cons_of_mem c hc')
    cases hb : (c.build u).outcome with
    | error fault =>
      obtain ⟨hbuilt, halone⟩ := buildAll_cons_error hfields hu ps hb cs
      rw [hbuilt, halone, hrest]
    | ok b =>
      obtain ⟨hbuilt, e, halone, hsame, -⟩ := buildAll_cons_ok hfields hu ps hcolumn hb cs
      have hexpr := hsame (h c List.mem_cons_self (by rw [hb]; rfl))
      rw [hbuilt, halone, List.map_cons, hrest, hexpr]

theorem exprs_alone_ne (f g : String → String) : ∀ {cs : List Criterion},
    (∃ c ∈ cs, (c.build u).outcome.isOk = true ∧ c.DeniesAcross s field) →
      (Criterion.buildAll u cs).2.map (Expr.relabel f) ≠
        ((alone s field ps cs).map Predicate.expr).map (Expr.relabel g)
  | [], h => by
    obtain ⟨c, hc, -⟩ := h
    cases hc
  | c :: cs, h => by
    rw [List.exists_mem_cons_iff] at h
    cases hb : (c.build u).outcome with
    | error fault =>
      obtain ⟨hbuilt, halone⟩ := buildAll_cons_error hfields hu ps hb cs
      rw [hbuilt, halone]
      obtain ⟨hok, -⟩ | hrest := h
      · rw [hb] at hok
        cases hok
      · exact exprs_alone_ne f g hrest
    | ok b =>
      obtain ⟨hbuilt, e, halone, -, hdenies⟩ := buildAll_cons_ok hfields hu ps hcolumn hb cs
      rw [hbuilt, halone]
      intro hsame
      simp only [List.map_cons, List.cons.injEq] at hsame
      obtain ⟨-, hacross⟩ | hrest := h
      · exact Expr.relabel_ne (hdenies hacross) f g hsame.1
      · exact exprs_alone_ne f g hrest hsame.2

/-- A list is the disjunction of what its elements were built to. -/
theorem compile_alternatives (cs : List Criterion) :
    (compile s field (.alternatives cs) ps).outcome =
      match Expr.disjunction (Criterion.buildAll u cs).2 with
      | some e => .ok ⟨field, e, .row, none⟩
      | none => .error (.criterion field .noElement) := by
  have hone := Term.isCollection_of_column hcolumn
  cases hany : Expr.disjunction (Criterion.buildAll u cs).2 with
  | none =>
    refine compile_unbuilt hfields hu ?_ ps
    simp only [Criterion.build, hone, Bool.false_eq_true, if_false, anyBuilt, hany]
  | some e =>
    have hb : ((Criterion.alternatives cs).build u).outcome = .ok (Built.plain e) := by
      simp only [Criterion.build, hone, Bool.false_eq_true, if_false, anyBuilt, hany]
    obtain ⟨e', he', hsame, -⟩ := compile_built hfields hu hcolumn hb ps
    rw [he', hsame fun h => Bool.false_ne_true h.1]
    rfl

end

theorem compile_of_path_error {s : Scope} (hfields : s.fields = []) {field : String} {e : Failure}
    (he : (s.filterTarget field).2 = .error e) (c : Criterion) (ps : List Parameter) :
    (compile s field c ps).outcome = .error e := by
  refine compile_of_tested_error ?_ ps
  unfold Scope.tested
  split
  · rw [Scope.filterTarget_detached, Scope.filterTarget_base hfields, he]
    rfl
  · exact he

theorem disjunction_eq_none_iff {es : List Expr} : Expr.disjunction es = none ↔ es = [] := by
  cases es <;> simp [Expr.disjunction]

theorem alone_eq_nil_iff {s : Scope} {field : String} {ps : List Parameter} {cs : List Criterion} :
    alone s field ps cs = [] ↔ ¬∃ c ∈ cs, (compile s field c ps).outcome.isOk = true := by
  unfold alone
  rw [List.filterMap_eq_nil_iff, not_exists]
  refine forall_congr' fun c => ?_
  cases (compile s field c ps).outcome <;> simp [Except.toOption, Except.isOk, Except.toBool]

theorem compile_single {s : Scope} (hfields : s.fields = []) {field : String} {u : Term}
    (hu : (s.filterTarget field).2 = .ok u) (hcolumn : u.origin = .column) {c : Criterion} {b : Built}
    (hb : (c.build u).outcome = .ok b) (ps : List Parameter) :
    (compile s field (.alternatives [c]) ps).parameters = (compile s field c ps).parameters ∧
      (¬c.DeniesAcross s field →
        (compile s field c ps).outcome = (compile s field (.alternatives [c]) ps).outcome) := by
  have hone := Term.isCollection_of_column hcolumn
  have hlist : (Criterion.alternatives [c]).build u = ⟨(c.build u).operands, .ok (Built.plain b.expr)⟩ := by
    simp only [Criterion.build, hone, Bool.false_eq_true, if_false, Criterion.buildAll, hb, List.append_nil]
    rfl
  refine ⟨?_, fun hplain => ?_⟩
  · rw [parameters_built hfields hu hb, parameters_built hfields hu (by rw [hlist]), hlist]
  · obtain ⟨e, he, hsame, -⟩ := compile_built hfields hu hcolumn hb ps
    have hbuilt : (Criterion.buildAll u [c]).2 = [b.expr] := by
      simp only [Criterion.buildAll, hb]
    rw [he, hsame hplain, compile_alternatives hfields hu ps hcolumn, hbuilt]
    rfl

/-- **A list asks for any of its elements.**  On a path that ends in no collection it compiles just if one of its
elements does alone, and then asks for any of those that do, unless one of them is a negation and the path crosses a
to-many relation: then it asks for something else, whatever the labels. -/
theorem alternatives_any_of {s : Scope} (hfields : s.fields = []) {field : String}
    (hend : ∀ a, s.terminal field = .ok a → a.isCollection = false) (cs : List Criterion) (ps : List Parameter) :
    ((compile s field (.alternatives cs) ps).outcome.isOk = true ↔
        ∃ c ∈ cs, (compile s field c ps).outcome.isOk = true) ∧
      ∀ p, (compile s field (.alternatives cs) ps).outcome = .ok p →
        (∀ q ∈ p :: alone s field ps cs, q.field = field ∧ q.level = .row ∧ q.membership = none) ∧
        ∃ e, Expr.disjunction ((alone s field ps cs).map Predicate.expr) = some e ∧
          ((∀ c ∈ cs, (compile s field c ps).outcome.isOk = true → ¬c.DeniesAcross s field) → p.expr = e) ∧
          ((∃ c ∈ cs, (compile s field c ps).outcome.isOk = true ∧ c.DeniesAcross s field) →
            ∀ f g, p.expr.relabel f ≠ e.relabel g) ∧
          ∀ c, cs = [c] → (compile s field (.alternatives cs) ps).parameters = (compile s field c ps).parameters ∧
            (¬c.DeniesAcross s field → (compile s field c ps).outcome = .ok p) := by
  cases hfound : (s.filterTarget field).2 with
  | error e =>
    have hfails := fun c => compile_of_path_error hfields hfound c ps
    simp only [hfails]
    exact ⟨iff_of_false Bool.false_ne_true fun ⟨_, _, h⟩ => Bool.false_ne_true h, fun p hp => by cases hp⟩
  | ok u =>
    have hcolumn := Scope.filterTarget_column hfields hend hfound
    have hlength := length_alone hfields hfound ps hcolumn cs
    have hnil : (Criterion.buildAll u cs).2 = [] ↔ alone s field ps cs = [] := by
      rw [← List.length_eq_zero_iff, ← hlength, List.length_eq_zero_iff]
    rw [compile_alternatives hfields hfound ps hcolumn]
    cases hany : Expr.disjunction (Criterion.buildAll u cs).2 with
    | none =>
      rw [disjunction_eq_none_iff, hnil, alone_eq_nil_iff] at hany
      exact ⟨iff_of_false Bool.false_ne_true hany, fun p hp => by cases hp⟩
    | some x =>
      have hsome : alone s field ps cs ≠ [] := fun h => by
        rw [disjunction_eq_none_iff.2 (hnil.2 h)] at hany
        cases hany
      obtain ⟨e, he⟩ : ∃ e, Expr.disjunction ((alone s field ps cs).map Predicate.expr) = some e :=
        Option.ne_none_iff_exists'.1 fun h => hsome (List.map_eq_nil_iff.1 (disjunction_eq_none_iff.1 h))
      refine ⟨iff_of_true rfl (not_not.1 fun h => hsome (alone_eq_nil_iff.2 h)), fun p hp => ?_⟩
      cases hp
      refine ⟨List.forall_mem_cons.2 ⟨⟨rfl, rfl, rfl⟩, fun q hq => mem_alone hfields hfound ps hcolumn hq⟩, e, he,
        fun hplain => ?_, fun ⟨c, hc, hok, hacross⟩ f g hsame => ?_, fun c hc => ?_⟩
      · have hexprs := exprs_alone hfields hfound ps hcolumn fun c hc hok =>
          hplain c hc ((isOk_compile_iff hfields hfound ps hcolumn c).2 hok)
        rw [hexprs, hany] at he
        exact Option.some.inj he
      · have hor : ∀ (f : String → String) (a b : Expr), (Expr.or a b).relabel f = .or (a.relabel f) (b.relabel f) :=
          fun f a b => by simp only [Expr.relabel]
        refine exprs_alone_ne hfields hfound ps hcolumn f g
          ⟨c, hc, (isOk_compile_iff hfields hfound ps hcolumn c).1 hok, hacross⟩
          (Expr.disjunction_inj (by simp only [List.length_map, hlength]) ?_)
        rw [Expr.disjunction_map (hor f), Expr.disjunction_map (hor g), hany, he, Option.map_some, Option.map_some,
          hsame]
      · subst hc
        cases hb : (c.build u).outcome with
        | error fault =>
          simp only [Criterion.buildAll, hb] at hany
          cases hany
        | ok b =>
          obtain ⟨hparameters, houtcome⟩ := compile_single hfields hfound hcolumn hb ps
          refine ⟨hparameters, fun hplain => ?_⟩
          rw [houtcome hplain, compile_alternatives hfields hfound ps hcolumn, hany]

namespace Sample

def adaOrMore : List Criterion := [.negation .null, .value (.text "Ada"), .numeric (.above (.integer 7))]

end Sample

open Sample in
/-- A name that is there or is Ada's is asked for as by the elements of the list that compile. -/
theorem named_or_ada :
    (Scope.new catalog person dataLabel).fields = [] ∧
    (∀ a, (Scope.new catalog person dataLabel).terminal "name" = .ok a → a.isCollection = false) ∧
    ∃ p e, (compile (Scope.new catalog person dataLabel) "name" (.alternatives adaOrMore) []).outcome = .ok p ∧
      Expr.disjunction ((alone (Scope.new catalog person dataLabel) "name" [] adaOrMore).map Predicate.expr) = some e ∧
      p.expr = e := by
  have hend : ∀ a, (Scope.new catalog person dataLabel).terminal "name" = .ok a → a.isCollection = false := by
    intro a ha
    cases ha
    rfl
  obtain ⟨p, hp, -⟩ := exists_ok (P := fun _ => True)
    (x := (compile (Scope.new catalog person dataLabel) "name" (.alternatives adaOrMore) []).outcome)
    (by decide +kernel)
  obtain ⟨-, e, he, hsame, -⟩ := (alternatives_any_of (s := Scope.new catalog person dataLabel) rfl hend adaOrMore []).2
    p hp
  have hone : catalog.manyAlong person "name" = false := by decide +kernel
  refine ⟨rfl, hend, p, e, hp, he, hsame fun c _ _ hacross => ?_⟩
  exact Bool.false_ne_true (hone.symm.trans hacross.2)

open Sample in
/-- That an amount is not 5, asked in a list of one, is not what it is alone: alone no order of 5 may exist. -/
theorem not_five_in_list :
    ∃ p q, (compile (Scope.new catalog person dataLabel) "orders.amount"
        (.alternatives [.negation (.value (.integer 5))]) []).outcome = .ok p ∧
      (compile (Scope.new catalog person dataLabel) "orders.amount" (.negation (.value (.integer 5))) []).outcome =
        .ok q ∧
      ∀ f g, p.expr.relabel f ≠ q.expr.relabel g := by
  obtain ⟨p, hp, hlisted⟩ := exists_ok (P := fun p : Predicate => p.expr.deniesRows = false)
    (x := (compile (Scope.new catalog person dataLabel) "orders.amount"
      (.alternatives [.negation (.value (.integer 5))]) []).outcome) (by decide +kernel)
  obtain ⟨q, hq, halone⟩ := exists_ok (P := fun q : Predicate => q.expr.deniesRows = true)
    (x := (compile (Scope.new catalog person dataLabel) "orders.amount" (.negation (.value (.integer 5))) []).outcome)
    (by decide +kernel)
  exact ⟨p, q, hp, hq, Expr.relabel_ne fun hsame => Bool.false_ne_true (hlisted.symm.trans (hsame.trans halone))⟩

end PageQuery
