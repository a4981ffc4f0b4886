import Mathlib.Data.List.Forall2
import PageQuery.Plan.Build
/-!
# Scopes only grow

Whatever is resolved or compiled in a scope leaves its root, its label and its fields alone and adds the joins of paths
at the end.  So the joins of every later scope start with those of every earlier one, and what holds of a scope and is
kept when the joins of a path are added holds of every later one.
-/
namespace PageQuery
namespace Scope

/-! ## The joins of paths -/

/-- The scope as it was before anything was resolved in it. -/
def base (s : Scope) : Scope := new s.catalog s.root s.label

theorem base_inj {s t : Scope} :
    s.base = t.base ↔ s.catalog = t.catalog ∧ s.root = t.root ∧ s.label = t.label := by
  simp [base, new]

theorem walk_base (s : Scope) (path : String) : ∀ (segments : List String) (p : Position),
    s.base.walk path p segments = s.walk path p segments
  | [], _ => rfl
  | segment :: rest, p => by
    have hstep : s.base.step path p segment = s.step path p segment := rfl
    simp only [walk, hstep, walk_base s path rest]

/-- What a path means does not depend on what was resolved before. -/
theorem trace_base (s : Scope) (path : String) : s.base.trace path = s.trace path := by
  have hleaf : ∀ p segment, s.base.leaf path p segment = s.leaf path p segment := fun _ _ => rfl
  have hstart : s.base.start = s.start := rfl
  simp only [trace, hstart, walk_base, hleaf]

theorem terminal_base (s : Scope) (path : String) : s.base.terminal path = s.terminal path := by
  have hstart : s.base.start = s.start := rfl
  simp only [terminal, hstart, walk_base]

theorem terminal_congr {s t : Scope} (hbase : s.base = t.base) (path : String) : s.terminal path = t.terminal path := by
  rw [← terminal_base s, hbase, terminal_base]

def addPaths (s : Scope) : List String → Scope
  | [] => s
  | path :: rest => (s.addJoins (s.trace path).1).addPaths rest

theorem addPaths_append (s : Scope) (paths more : List String) :
    s.addPaths (paths ++ more) = (s.addPaths paths).addPaths more := by
  induction paths generalizing s with
  | nil => rfl
  | cons path rest ih => exact ih _

theorem joins_addJoin_congr {s t : Scope} (h : s.joins = t.joins) (j : KeyedJoin) :
    (s.addJoin j).joins = (t.addJoin j).joins := by
  unfold addJoin
  rw [h]
  split
  · exact h
  · rfl

theorem joins_addJoins_congr {s t : Scope} (h : s.joins = t.joins) (js : List KeyedJoin) :
    (s.addJoins js).joins = (t.addJoins js).joins := by
  unfold addJoins
  induction js generalizing s t with
  | nil => exact h
  | cons j js ih => exact ih (joins_addJoin_congr h j)

theorem addJoins_eq (s : Scope) (js : List KeyedJoin) : s.addJoins js = { s with joins := (s.addJoins js).joins } := by
  unfold addJoins
  induction js generalizing s with
  | nil => rfl
  | cons j js ih =>
    rw [List.foldl_cons, ih]
    unfold addJoin
    split <;> rfl

section
variable (s : Scope) (js : List KeyedJoin)

@[simp] theorem catalog_addJoins : (s.addJoins js).catalog = s.catalog := by rw [addJoins_eq]

@[simp] theorem root_addJoins : (s.addJoins js).root = s.root := by rw [addJoins_eq]

@[simp] theorem label_addJoins : (s.addJoins js).label = s.label := by rw [addJoins_eq]

@[simp] theorem fields_addJoins : (s.addJoins js).fields = s.fields := by rw [addJoins_eq]

theorem base_addJoins : (s.addJoins js).base = s.base := by simp [base]

end

theorem base_addPaths (s : Scope) (paths : List String) : (s.addPaths paths).base = s.base := by
  induction paths generalizing s with
  | nil => rfl
  | cons path rest ih => exact (ih _).trans (base_addJoins s _)

@[simp] theorem catalog_addPaths (s : Scope) (paths : List String) : (s.addPaths paths).catalog = s.catalog := by
  have hbase := congrArg Scope.catalog (base_addPaths s paths)
  exact hbase

@[simp] theorem label_addPaths (s : Scope) (paths : List String) : (s.addPaths paths).label = s.label := by
  have hbase := congrArg Scope.label (base_addPaths s paths)
  exact hbase

theorem joins_addPaths_congr {s t : Scope} (hbase : s.base = t.base) (hjoins : s.joins = t.joins)
    (paths : List String) : (s.addPaths paths).joins = (t.addPaths paths).joins := by
  induction paths generalizing s t with
  | nil => exact hjoins
  | cons path rest ih =>
    have htrace : s.trace path = t.trace path := by rw [← trace_base s, hbase, trace_base]
    simp only [addPaths]
    rw [htrace]
    exact ih (by rw [base_addJoins, base_addJoins, hbase]) (joins_addJoins_congr hjoins _)

theorem prefix_addJoins (s : Scope) (js : List KeyedJoin) : s.joins <+: (s.addJoins js).joins := by
  unfold addJoins
  induction js generalizing s with
  | nil => exact List.prefix_rfl
  | cons j js ih =>
    refine List.IsPrefix.trans ?_ (ih (s.addJoin j))
    unfold addJoin
    split
    · exact List.prefix_rfl
    · exact List.prefix_append _ _

theorem prefix_addPaths (s : Scope) (paths : List String) : s.joins <+: (s.addPaths paths).joins := by
  induction paths generalizing s with
  | nil => exact List.prefix_rfl
  | cons path rest ih => exact (prefix_addJoins s _).trans (ih _)

theorem mem_addJoins {j : KeyedJoin} : ∀ {js : List KeyedJoin} {s : Scope}, j ∈ (s.addJoins js).joins →
    j ∈ s.joins ∨ j ∈ js
  | [], _, h => .inl h
  | k :: js, s, h => by
    rcases mem_addJoins (s := s.addJoin k) h with h | h
    · unfold addJoin at h
      split at h
      · exact .inl h
      · rcases List.mem_append.1 h with h | h
        · exact .inl h
        · exact .inr (List.mem_singleton.1 h ▸ List.mem_cons_self)
    · exact .inr (List.mem_cons_of_mem k h)

theorem key_mem_addJoins {j : KeyedJoin} : ∀ {js : List KeyedJoin} {s : Scope}, j ∈ js →
    j.key ∈ (s.addJoins js).joins.map KeyedJoin.key
  | k :: js, s, h => by
    rcases List.mem_cons.1 h with rfl | h
    · refine ((prefix_addJoins (s.addJoin j) js).map KeyedJoin.key).subset ?_
      by_cases hkey : j.key ∈ s.joins.map KeyedJoin.key
      · rwa [addJoin_of_mem hkey]
      · rw [addJoin_of_notMem hkey]
        simp
    · show j.key ∈ ((s.addJoin k).addJoins js).joins.map KeyedJoin.key
      exact key_mem_addJoins h

/-! ## Growing -/

/-- The second scope is the first one later: the same but for the joins of further paths and for subqueries opened. -/
structure Grows (s s' : Scope) : Prop where
  catalog : s'.catalog = s.catalog
  root : s'.root = s.root
  label : s'.label = s.label
  fields : s'.fields = s.fields
  paths : ∃ paths, s'.joins = (s.addPaths paths).joins

namespace Grows
variable {s s' s'' : Scope}

theorem base (h : s.Grows s') : s'.base = s.base := by
  unfold Scope.base
  rw [h.catalog, h.root, h.label]

theorem refl (s : Scope) : s.Grows s := ⟨rfl, rfl, rfl, rfl, [], rfl⟩

theorem trans (h : s.Grows s') (h' : s'.Grows s'') : s.Grows s'' := by
  obtain ⟨paths, hjoins⟩ := h.paths
  obtain ⟨more, hmore⟩ := h'.paths
  refine ⟨h'.catalog.trans h.catalog, h'.root.trans h.root, h'.label.trans h.label, h'.fields.trans h.fields,
    paths ++ more, ?_⟩
  rw [hmore, addPaths_append]
  exact joins_addPaths_congr (h.base.trans (base_addPaths s paths).symm) hjoins more

theorem joins (h : s.Grows s') : s.joins <+: s'.joins := by
  obtain ⟨paths, hjoins⟩ := h.paths
  rw [hjoins]
  exact prefix_addPaths s paths

theorem trace (h : s.Grows s') (path : String) : s'.trace path = s.trace path := by
  rw [← trace_base s', h.base, trace_base]

theorem joinList (h : s.Grows s') : s.joinList <+: s'.joinList := h.joins.map _

theorem identity (h : s.Grows s') : s'.identity = s.identity := by
  unfold Scope.identity
  rw [h.label, h.root]

end Grows

theorem grows_opened (s : Scope) : s.Grows s.opened := ⟨rfl, rfl, rfl, rfl, [], rfl⟩

theorem grows_addPath (s : Scope) (path : String) : s.Grows (s.addJoins (s.trace path).1) :=
  ⟨catalog_addJoins s _, root_addJoins s _, label_addJoins s _, fields_addJoins s _, [path], rfl⟩

theorem grows_resolve (s : Scope) (path : String) : s.Grows (s.resolve path).1 := by
  unfold resolve
  split
  · exact .refl s
  · exact grows_addPath s path

theorem grows_resolveMarked (mark : String → String) (s : Scope) (path : String) :
    s.Grows (s.resolveMarked mark path).1 := by
  unfold resolveMarked
  split
  · exact .refl s
  · split
    · exact .refl s
    · exact grows_resolve s _

theorem grows_readTarget (s : Scope) (path : String) : s.Grows (s.readTarget path).1 :=
  grows_resolveMarked sharedPath s path

theorem grows_filterTarget (s : Scope) (path : String) : s.Grows (s.filterTarget path).1 :=
  grows_resolveMarked membershipPath s path

theorem grows_perIdentity (s : Scope) (f : Function) (type : Option ValueType) (path : String) :
    s.Grows (s.perIdentity f type path).1 := by
  unfold perIdentity
  split <;> exact grows_opened s

theorem grows_overGroup (s : Scope) (f : Function) (type : Option ValueType) (path : String) :
    s.Grows (s.overGroup f type path).1 := by
  have h := grows_readTarget s path
  unfold overGroup
  split
  · next s' e heq => rwa [heq] at h
  · next s' t heq => rwa [heq] at h

theorem grows_measure (s : Scope) (m : Measure) (path : String) : s.Grows (s.measure m path).1 := by
  cases m with
  | path => exact grows_readTarget s path
  | count | min | max => exact grows_overGroup s _ _ path
  | sum | avg => exact grows_perIdentity s _ _ path

end Scope

/-! ## Recipes, criteria and orderings -/

open Scope (Grows)

namespace RunState

theorem read_cases (st : RunState) (m : Measure) (field : Option String) (path : String) :
    (∃ s t, st.scope.measure m path = (s, .ok t) ∧ st.read m field path = (st.withTerm s field t, none)) ∨
    ∃ s e, st.scope.measure m path = (s, .error e) ∧ st.read m field path = ({ st with scope := s }, some e) := by
  unfold read
  rcases st.scope.measure m path with ⟨s, e | t⟩
  · exact .inr ⟨s, e, rfl, rfl⟩
  · exact .inl ⟨s, t, rfl, rfl⟩

theorem grows_read (st : RunState) (m : Measure) (field : Option String) (path : String) :
    st.scope.Grows (st.read m field path).1.scope := by
  have h := Scope.grows_measure st.scope m path
  rcases st.read_cases m field path with ⟨s, t, hmeasure, hread⟩ | ⟨s, e, hmeasure, hread⟩
  all_goals
    rw [hmeasure] at h
    rwa [hread]

theorem grows_step (st : RunState) (x : Step) : st.scope.Grows (st.step x).1.scope := by
  cases x with
  | measure m field path => exact grows_read st m field path
  | attempt m path => exact grows_read st m none path
  | identity | constant | condition => exact .refl _

theorem grows_steps (st : RunState) (xs : List Step) : st.scope.Grows (st.steps xs).1.scope := by
  induction xs generalizing st with
  | nil => exact .refl _
  | cons x xs ih =>
    have h := grows_step st x
    unfold steps
    split
    · next st' heq =>
      rw [heq] at h
      exact h.trans (ih st')
    · next st' e heq => rwa [heq] at h

theorem grows_run (s : Scope) (r : Recipe) : s.Grows (run s r).1.scope := grows_steps ⟨s, [], [], []⟩ r.steps

end RunState

theorem grows_compileOnTerm (s : Scope) (field : String) (c : Criterion) (ps : List Parameter) :
    s.Grows (compileOnTerm s field c ps).scope := by
  have h := Scope.grows_filterTarget s field
  unfold compileOnTerm
  split
  · next s' e heq => rwa [heq] at h
  · next s' t heq => rwa [heq] at h

theorem grows_compile (s : Scope) (field : String) (c : Criterion) (ps : List Parameter) :
    s.Grows (compile s field c ps).scope := by
  unfold compile
  split
  · split
    · exact grows_compileOnTerm s field _ ps
    · simp only
      split
      · exact Scope.grows_opened s
      · split
        · exact Scope.grows_opened s
        · exact (Scope.grows_opened s).trans (grows_compileOnTerm s.opened field _ ps)
  · exact grows_compileOnTerm s field _ ps

theorem grows_compileAll (s : Scope) (ps : List Parameter) (fs : List Filter) :
    s.Grows (compileAll s ps fs).scope := by
  induction fs generalizing s ps with
  | nil => exact .refl s
  | cons f fs ih =>
    have h := grows_compile s f.path f.criterion ps
    unfold compileAll
    simp only
    split
    · exact h.trans (ih _ _)
    · split
      · exact h.trans (ih _ _)
      · exact h

theorem grows_resolveOrdering (s : Scope) (os : List Ordering) : s.Grows (resolveOrdering s os).1 := by
  induction os generalizing s with
  | nil => exact .refl s
  | cons o os ih =>
    have h := Scope.grows_readTarget s o.path
    unfold resolveOrdering
    split
    · next s' e heq => rwa [heq] at h
    · next s' t heq =>
      rw [heq] at h
      exact h.trans (ih s')

theorem grows_orderTerms (s : Scope) (r : Request) : s.Grows (orderTerms s r).1 := by
  unfold orderTerms
  split
  · exact .refl s
  · exact grows_resolveOrdering s r.ordering

/-! ## What every step keeps

One induction for each list of things that are resolved in turn: what holds of the scope before and is kept by each of
them holds of the scope after, and what each of them yields in such a scope all of them do. -/

namespace RunState

theorem steps_keep {I : RunState → Prop} (hstep : ∀ st x, I st → I (st.step x).1) :
    ∀ (xs : List Step) {st : RunState}, I st → I (st.steps xs).1
  | [], _, hst => hst
  | x :: xs, st, hst => by
    have hfirst := hstep st x hst
    simp only [steps]
    rcases hx : st.step x with ⟨st₁, _ | e⟩
    all_goals rw [hx] at hfirst
    · exact steps_keep hstep xs hfirst
    · exact hfirst

/-- **A step that succeeds**: it made a term, or tried to, or it added a condition. -/
theorem step_cases {st st' : RunState} {x : Step} (h : st.step x = (st', none)) :
    (∃ m field path s t, x = .measure m field path ∧ st.scope.measure m path = (s, .ok t) ∧
      st' = st.withTerm s field t) ∨
    (∃ field, x = .identity field ∧ st' = st.withTerm st.scope field st.scope.identity) ∨
    (∃ field v type origin, x = .constant field v type origin ∧
      st' = st.withTerm st.scope field ⟨.value v, type, origin⟩) ∨
    (∃ m path, x = .attempt m path ∧ st' = (st.read m none path).1) ∨
    ∃ f, x = .condition f ∧ st' = st.withCondition (f.expr st.scope st.terms) := by
  cases x with
  | measure m field path =>
    rcases st.read_cases m field path with ⟨s, t, hmeasure, hread⟩ | ⟨s, e, -, hread⟩
    · cases hread.symm.trans h
      exact .inl ⟨m, field, path, s, t, rfl, hmeasure, rfl⟩
    · cases hread.symm.trans h
  | identity field =>
    cases h
    exact .inr (.inl ⟨field, rfl, rfl⟩)
  | constant field v type origin =>
    cases h
    exact .inr (.inr (.inl ⟨field, v, type, origin, rfl, rfl⟩))
  | attempt m path =>
    cases h
    exact .inr (.inr (.inr (.inl ⟨m, path, rfl, rfl⟩)))
  | condition f =>
    cases h
    exact .inr (.inr (.inr (.inr ⟨f, rfl, rfl⟩)))

end RunState

section
variable {I : Scope → Prop} {fs : List Filter}
  (hscope : ∀ f ∈ fs, ∀ s ps, I s → I (compile s f.path f.criterion ps).scope)
include hscope

theorem compileAll_scope {s : Scope} (ps : List Parameter) (hs : I s) : I (compileAll s ps fs).scope := by
  induction fs generalizing s ps with
  | nil => exact hs
  | cons f fs ih =>
    have hfirst := hscope f List.mem_cons_self s ps hs
    have hrest := fun g hg => hscope g (List.mem_cons_of_mem f hg)
    unfold compileAll
    simp only
    split
    · exact ih hrest _ hfirst
    · split
      · exact ih hrest _ hfirst
      · exact hfirst

theorem compileAll_forall {P : Scope → Predicate → Prop} (hlater : ∀ {s s' p}, Scope.Grows s s' → P s p → P s' p)
    (hstep : ∀ f ∈ fs, ∀ s ps p, I s → (compile s f.path f.criterion ps).outcome = .ok p →
      P (compile s f.path f.criterion ps).scope p)
    {s : Scope} {ps : List Parameter} {preds : List Predicate} (hs : I s)
    (h : (compileAll s ps fs).outcome = .ok preds) : ∀ p ∈ preds, P (compileAll s ps fs).scope p := by
  induction fs generalizing s ps preds with
  | nil =>
    cases h
    exact fun p hp => (List.not_mem_nil hp).elim
  | cons f fs ih =>
    have hfirst := hscope f List.mem_cons_self s ps hs
    have hrest : ∀ {rest : List Predicate}, (compileAll (compile s f.path f.criterion ps).scope
        (compile s f.path f.criterion ps).parameters fs).outcome = .ok rest → ∀ p ∈ rest, P (compileAll
          (compile s f.path f.criterion ps).scope (compile s f.path f.criterion ps).parameters fs).scope p :=
      ih (fun g hg => hscope g (List.mem_cons_of_mem f hg)) (fun g hg => hstep g (List.mem_cons_of_mem f hg)) hfirst
    simp only [compileAll] at h ⊢
    cases hf : (compile s f.path f.criterion ps).outcome with
    | error e =>
      simp only [hf] at h ⊢
      split at h
      · next hsoft =>
        rw [if_pos hsoft]
        exact hrest h
      · cases h
    | ok p =>
      simp only [hf] at h ⊢
      cases hall : (compileAll (compile s f.path f.criterion ps).scope
          (compile s f.path f.criterion ps).parameters fs).outcome with
      | error e =>
        rw [hall] at h
        cases h
      | ok rest =>
        rw [hall] at h
        cases h
        intro q hq
        rcases List.mem_cons.1 hq with rfl | hq
        · exact hlater (grows_compileAll _ _ fs) (hstep f List.mem_cons_self s ps q hs hf)
        · exact hrest hall q hq

end

section
variable {I : Scope → Prop} {r : Request} (hscope : ∀ o ∈ r.ordering, ∀ s, I s → I (s.readTarget o.path).1)
include hscope

theorem orderTerms_scope {s : Scope} (hs : I s) : I (orderTerms s r).1 := by
  have hall : ∀ {os : List Ordering} {s : Scope}, (∀ o ∈ os, ∀ s, I s → I (s.readTarget o.path).1) → I s →
      I (resolveOrdering s os).1 := by
    intro os
    induction os with
    | nil => exact fun _ hs => hs
    | cons o os ih =>
      intro s hos hs
      have hfirst := hos o List.mem_cons_self s hs
      simp only [resolveOrdering]
      rcases hread : s.readTarget o.path with ⟨s₁, e | t⟩
      · rwa [hread] at hfirst
      · rw [hread] at hfirst
        exact ih (fun x hx => hos x (List.mem_cons_of_mem o hx)) hfirst
  unfold orderTerms
  split
  · exact hs
  · exact hall hscope hs

theorem orderTerms_forall₂ {P : Scope → Ordering → OrderTerm → Prop}
    (hlater : ∀ {s s' o x}, Scope.Grows s s' → P s o x → P s' o x)
    (hstep : ∀ o ∈ r.ordering, ∀ s t, I s → (s.readTarget o.path).2 = .ok t →
      P (s.readTarget o.path).1 o ⟨collapse t o.ascending, o.ascending⟩)
    {s s' : Scope} {orders : List OrderTerm} (hs : I s) (hlimit : r.limit ≠ some 1)
    (h : orderTerms s r = (s', .ok orders)) : List.Forall₂ (P s') r.ordering orders := by
  have hall : ∀ {os : List Ordering} {s s' : Scope} {orders : List OrderTerm},
      (∀ o ∈ os, ∀ s, I s → I (s.readTarget o.path).1) →
      (∀ o ∈ os, ∀ s t, I s → (s.readTarget o.path).2 = .ok t →
        P (s.readTarget o.path).1 o ⟨collapse t o.ascending, o.ascending⟩) →
      I s → resolveOrdering s os = (s', .ok orders) → List.Forall₂ (P s') os orders := by
    intro os
    induction os with
    | nil =>
      intro s s' orders _ _ _ h
      cases h
      exact .nil
    | cons o os ih =>
      intro s s' orders hos hterms hs h
      have hfirst := hos o List.mem_cons_self s hs
      have hterm := hterms o List.mem_cons_self s
      simp only [resolveOrdering] at h
      rcases hread : s.readTarget o.path with ⟨s₁, e | t⟩
      · rw [hread] at h
        cases h
      · rw [hread] at h hfirst hterm
        have hgrows := grows_resolveOrdering s₁ os
        rcases hrest : resolveOrdering s₁ os with ⟨s₂, e | rest⟩
        · simp only [hrest, Except.map] at h
          cases h
        · simp only [hrest, Except.map] at h
          cases h
          rw [hrest] at hgrows
          exact .cons (hlater hgrows (hterm t hs rfl)) (ih (fun x hx => hos x (List.mem_cons_of_mem o hx))
            (fun x hx => hterms x (List.mem_cons_of_mem o hx)) hfirst hrest)
  unfold orderTerms at h
  rw [if_neg hlimit] at h
  exact hall hscope hstep hs h

theorem orderTerms_forall {P : Scope → OrderTerm → Prop} (hlater : ∀ {s s' o}, Scope.Grows s s' → P s o → P s' o)
    (hstep : ∀ o ∈ r.ordering, ∀ s t, I s → (s.readTarget o.path).2 = .ok t →
      P (s.readTarget o.path).1 ⟨collapse t o.ascending, o.ascending⟩)
    {s s' : Scope} {orders : List OrderTerm} (hs : I s) (h : orderTerms s r = (s', .ok orders)) :
    ∀ o ∈ orders, P s' o := by
  by_cases hlimit : r.limit = some 1
  · -- a single row has no sort keys
    unfold orderTerms at h
    rw [if_pos hlimit] at h
    cases hc : checkOrdering s r.ordering with
    | error e =>
      rw [hc] at h
      cases h
    | ok u =>
      rw [hc] at h
      cases h
      exact fun o ho => (List.not_mem_nil ho).elim
  · have hall : List.Forall₂ (fun _ x => P s' x) r.ordering orders :=
      orderTerms_forall₂ (P := fun s _ x => P s x) hscope (fun hgrows hx => hlater hgrows hx) hstep hs hlimit h
    intro x hx
    obtain ⟨i, hi, rfl⟩ := List.mem_iff_getElem.1 hx
    exact hall.get (by rw [hall.length_eq]; exact hi) hi

end

end PageQuery
