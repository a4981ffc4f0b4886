import PageQuery.Proofs.Built
import PageQuery.Proofs.Columns
import PageQuery.Proofs.Paths
/-!
# Queries are closed

A query is closed when it names no labels but its own: every join is owned by a label in front of it, and every column
outside subqueries is of the table or of a join.  A subquery about a row names besides its own labels the identity of
that row, once.

Whatever a scope resolves stays within the labels that it has by then, and scopes only grow.  So the terms, predicates
and conditions that a preparation collects stay within the labels of its last scope, and their subqueries are about the
root row.
-/
namespace PageQuery

/-! ## Closed queries -/

/-- A query as far as labels go: its own label, its joins, and the expressions that stand in it. -/
structure Body where
  label : String
  joins : List Join
  clauses : List Expr

namespace Body

def labels (b : Body) : List String := b.label :: b.joins.map Join.label

/-- The columns that stand in a query, outside its subqueries, and are of none of its labels. -/
def foreign (b : Body) : List Column := (b.clauses.flatMap Expr.columns).filter fun c => c.source ∉ b.labels

/-- The query names its own labels only, but for some columns of a query around it, and its subqueries are of a kind. -/
structure Closed (outer : List Column) (kind : Subquery → Prop) (b : Body) : Prop where
  joins : Join.InOrder [b.label] b.joins
  foreign : b.foreign = outer
  subqueries : ∀ e ∈ b.clauses, ∀ q ∈ e.subqueries, kind q

def Joins (catalog : Catalog) (root : Entity) (b : Body) : Prop :=
  ∃ paths, b.joins = ((Scope.new catalog root b.label).addPaths paths).joinList

theorem Closed.imp {outer : List Column} {kind kind' : Subquery → Prop} (h : ∀ q, kind q → kind' q) {b : Body}
    (hb : b.Closed outer kind) : b.Closed outer kind' :=
  ⟨hb.joins, hb.foreign, fun e he q hq => h q (hb.subqueries e he q hq)⟩

theorem foreign_eq_nil {b : Body} (h : ∀ e ∈ b.clauses, ∀ c ∈ e.columns, c.source ∈ b.labels) : b.foreign = [] := by
  unfold foreign
  refine List.filter_eq_nil_iff.2 fun c hc => ?_
  obtain ⟨e, he, hc⟩ := List.mem_flatMap.1 hc
  simpa using h e he c hc

theorem foreign_link {b : Body} {before after : List Expr} {own c : Column}
    (hclauses : b.clauses = before ++ Expr.eq (.column own) (.column c) :: after)
    (h : ∀ e ∈ before ++ after, ∀ x ∈ e.columns, x.source ∈ b.labels) (hown : own.source ∈ b.labels)
    (hc : c.source ∉ b.labels) : b.foreign = [c] := by
  have hnone : ∀ es : List Expr, (∀ e ∈ es, e ∈ before ++ after) →
      (es.flatMap Expr.columns).filter (fun x => x.source ∉ b.labels) = [] := fun es hes =>
    foreign_eq_nil (b := ⟨b.label, b.joins, es⟩) fun e he => h e (hes e he)
  have hlink : (Expr.eq (.column own) (.column c)).columns = [own, c] := rfl
  unfold foreign
  rw [hclauses, List.flatMap_append, List.flatMap_cons, hlink, List.filter_append, List.filter_append,
    hnone before fun e he => List.mem_append_left _ he, hnone after fun e he => List.mem_append_right _ he]
  simp [hown, hc]

end Body

def Subquery.body : Subquery → Body
  | .select item _ label joins conditions groupBy having =>
    ⟨label, joins, item :: (conditions ++ groupBy ++ having)⟩

/-- The subquery is about the row of a query around it that has a column, and holds no further subquery. -/
def Subquery.About (c : Column) (q : Subquery) : Prop := q.body.Closed [c] fun _ => False

theorem Subquery.About.eval_congr {d : Dialect} {db : Store} {seen : String → Prop} {c : Column} {q : Subquery}
    (h : q.About c) (hc : seen c.source) {w v : Tuple} (hwv : w.Alike seen v) : q.eval d db w = q.eval d db v := by
  obtain ⟨item, table, label, joins, conditions, groupBy, having⟩ := q
  refine Subquery.eval_congr (fun e he => Expr.sees_of_columns (fun x hx => ?_) fun q hq => ?_) hwv
  · by_cases hown : x.source ∈ label :: joins.map Join.label
    · exact .inl hown
    · have hforeign : x ∈ [c] := by
        rw [← h.foreign]
        exact List.mem_filter.2 ⟨List.mem_flatMap.2 ⟨e, he, hx⟩, decide_eq_true hown⟩
      rw [List.mem_singleton.1 hforeign]
      exact .inr hc
  · exact (h.subqueries e he q hq).elim

def Statement.body (s : Statement) : Body :=
  ⟨s.label, s.joins,
    s.items.map Item.expr ++ (s.conditions ++ s.groupBy ++ s.having) ++ s.orderBy.map SortKey.expr⟩

/-! ## Terms -/

/-- The term stays within some labels, and is a function of groups only if it says so. -/
structure Term.Within (seen : String → Prop) (kind : Subquery → Prop) (t : Term) : Prop where
  expr : t.expr.Within seen kind
  plain : t.isAggregate = false → t.expr.isAggregate = false

variable {seen seen' : String → Prop} {kind : Subquery → Prop}

theorem Term.Within.mono (hsub : ∀ l, seen l → seen' l) {t : Term} (h : t.Within seen kind) : t.Within seen' kind :=
  ⟨h.expr.mono hsub, h.plain⟩

theorem Term.Within.col {l : String} (hl : seen l) (c : String) {t : Term} (h : t.expr = Expr.col l c) :
    t.Within seen kind := ⟨h ▸ .col hl c, fun _ => by rw [h]; rfl⟩

structure Scope.Closed (kind : Subquery → Prop) (s : Scope) : Prop where
  laid : s.Laid
  fields : ∀ x ∈ s.fields, x.2.Within s.labels kind

namespace Scope
variable {s s' : Scope}

/-- The subqueries about the root row of a scope, over what paths from that root ask for. -/
def about (s : Scope) (q : Subquery) : Prop :=
  q.About ⟨s.label, s.root.identityColumn⟩ ∧ q.body.Joins s.catalog s.root

theorem Grows.about (h : s.Grows s') : s'.about = s.about := by
  unfold Scope.about
  rw [h.label, h.root, h.catalog]

theorem Laid.joins (hs : s.Laid) (clauses : List Expr) :
    (⟨s.label, s.joinList, clauses⟩ : Body).Joins s.catalog s.root := by
  obtain ⟨paths, hjoins⟩ := hs
  exact ⟨paths, congrArg (List.map KeyedJoin.join) hjoins⟩

theorem Grows.closed (h : s.Grows s') (hs : s.Closed kind) : s'.Closed kind := by
  refine ⟨h.laid hs.laid, ?_⟩
  rw [h.fields]
  exact fun x hx => (hs.fields x hx).mono h.labels

theorem closed_new (catalog : Catalog) (root : Entity) (label : String) : (new catalog root label).Closed kind :=
  ⟨laid_new catalog root label, fun _ hx => (List.not_mem_nil hx).elim⟩

theorem closed_detached (s : Scope) : s.detached.Closed fun _ => False := closed_new _ _ _

theorem identity_within (s : Scope) : s.identity.Within s.labels kind := .col s.labels_self _ rfl

/-- **What a path resolves to** stays within the labels of the scope that has its joins. -/
theorem Closed.resolveMarked (hs : s.Closed kind) (mark : String → String) (path : String) :
    ∀ t, (s.resolveMarked mark path).2 = .ok t → t.Within (s.resolveMarked mark path).1.labels kind := by
  intro t ht
  rcases resolveMarked_cases ht with ⟨name, hfield⟩ | ⟨target, hscope, htrace⟩
  · exact (hs.fields _ hfield).mono (grows_resolveMarked mark s path).labels
  · obtain ⟨-, l, c, hexpr, hl⟩ := (trace_made s target).2 t htrace
    rw [hscope]
    refine .col ?_ c hexpr
    rcases hl with rfl | ⟨j, hj, rfl⟩
    · exact (grows_addPath s target).labels _ s.labels_self
    · exact (hs.laid.ordered.addPath target).2 j hj

theorem Closed.readTarget (hs : s.Closed kind) (path : String) :
    ∀ t, (s.readTarget path).2 = .ok t → t.Within (s.readTarget path).1.labels kind := hs.resolveMarked sharedPath path

theorem Closed.filterTarget (hs : s.Closed kind) (path : String) :
    ∀ t, (s.filterTarget path).2 = .ok t → t.Within (s.filterTarget path).1.labels kind :=
  hs.resolveMarked membershipPath path

/-! ## Subqueries about the root row -/

theorem hidden_detached {inner : Scope} (hinner : s.detached.Grows inner) : ¬inner.labels s.label := by
  have hlaid : inner.Laid := hinner.laid (laid_new _ _ _)
  have hlabel : inner.label = s.label ++ "_sub" ++ toString s.subqueries := hinner.label
  refine hlaid.not_labels (fun heq => ?_) ?_
  · have hlength := congrArg String.length heq
    rw [hlabel, String.length_append, String.length_append] at hlength
    have hsub : ("_sub" : String).length = 4 := rfl
    omega
  · rw [hlabel, String.length_append, String.length_append]
    omega

/-- A subquery over a detached scope that names its labels only is about the root row of the scope outside. -/
theorem about_correlated {inner : Scope} (hinner : s.detached.Grows inner) {item : Expr}
    {conditions groupBy having : List Expr}
    (h : ∀ e ∈ item :: (conditions ++ groupBy ++ having),
      (∀ c ∈ e.columns, inner.labels c.source) ∧ e.subqueries = []) :
    s.about (inner.correlated item s.identity.expr conditions groupBy having) := by
  have hlaid : inner.Laid := hinner.laid (laid_new _ _ _)
  have hhidden := hidden_detached hinner
  have hjoins := hlaid.joins (inner.correlated item s.identity.expr conditions groupBy having).body.clauses
  rw [hinner.catalog, hinner.root] at hjoins
  refine ⟨⟨hlaid.ordered.inOrder, ?_, fun e he q hq => ?_⟩, hjoins⟩
  · have hlink : (inner.correlated item s.identity.expr conditions groupBy having).body.clauses =
        [item] ++ Expr.eq (.column ⟨inner.label, inner.root.identityColumn⟩)
          (.column ⟨s.label, s.root.identityColumn⟩) :: (conditions ++ groupBy ++ having) := rfl
    exact Body.foreign_link hlink (fun e he => (h e (by simpa using he)).1) inner.labels_self hhidden
  · have hmem : e = Expr.eq inner.identity.expr s.identity.expr ∨ e ∈ item :: (conditions ++ groupBy ++ having) := by
      simpa [Subquery.body, correlated, or_left_comm] using he
    rcases hmem with rfl | hmem
    · exact (List.not_mem_nil hq).elim
    · rw [(h e hmem).2] at hq
      exact List.not_mem_nil hq

theorem Closed.perIdentity (f : Function) (type : Option ValueType) (path : String) :
    ∀ t, (s.perIdentity f type path).2 = .ok t → t.Within (s.perIdentity f type path).1.labels s.about := by
  intro t ht
  have hinner := grows_readTarget s.detached path
  have hfound := s.closed_detached.readTarget path
  unfold Scope.perIdentity at ht ⊢
  generalize s.detached.readTarget path = found at hinner hfound ht
  obtain ⟨inner, e | u⟩ := found
  · cases ht
  · cases ht
    have hu := hfound u rfl
    refine ⟨.scalar (about_correlated hinner fun e he => ?_), fun _ => rfl⟩
    have he' : e = Expr.call f u.expr := by simpa using he
    rw [he']
    exact ⟨hu.expr.columns, List.eq_nil_iff_forall_not_mem.2 hu.expr.subqueries⟩

theorem Closed.overGroup (hs : s.Closed kind) {f : Function} (hf : f.isSteady = true) (type : Option ValueType)
    (path : String) : ∀ t, (s.overGroup f type path).2 = .ok t → t.Within (s.overGroup f type path).1.labels kind := by
  intro t ht
  have hfound := hs.readTarget path
  unfold Scope.overGroup at ht ⊢
  generalize s.readTarget path = found at hfound ht
  obtain ⟨s', e | u⟩ := found
  · cases ht
  · cases ht
    exact ⟨(hfound u rfl).expr.call (.inr hf), fun hplain => by cases hplain⟩

theorem Closed.measure (hs : s.Closed s.about) (m : Measure) (path : String) :
    ∀ t, (s.measure m path).2 = .ok t → t.Within (s.measure m path).1.labels s.about := by
  cases m with
  | path => exact hs.readTarget path
  | count | min | max => exact hs.overGroup rfl _ path
  | sum | avg => exact Closed.perIdentity _ _ path

end Scope

/-! ## Predicates -/

structure Predicate.Within (seen : String → Prop) (kind : Subquery → Prop) (p : Predicate) : Prop where
  expr : p.expr.Within seen kind
  membership : ∀ m ∈ p.membership, m.value.Within seen kind

theorem Predicate.Within.mono (hsub : ∀ l, seen l → seen' l) {p : Predicate} (h : p.Within seen kind) :
    p.Within seen' kind :=
  ⟨h.expr.mono hsub, fun m hm => (h.membership m hm).mono hsub⟩

theorem Predicate.Within.countTest {p : Predicate} (h : p.Within seen kind) :
    ∀ e ∈ p.countTest, e.Within seen kind := by
  intro e he
  unfold Predicate.countTest at he
  cases hm : p.membership with
  | none =>
    rw [hm] at he
    cases he
  | some m =>
    rw [hm] at he
    simp only at he
    split at he
    · cases he
      exact ((h.membership m hm).call (.inr rfl)).compare _ (.value _)
    · cases he

section
variable {s : Scope}

theorem within_compileOnTerm (hs : s.Closed kind) (field : String) (c : Criterion) (ps : List Parameter) :
    ∀ p, (compileOnTerm s field c ps).outcome = .ok p → p.Within (compileOnTerm s field c ps).scope.labels kind := by
  intro p hp
  obtain ⟨t, b, htarget, hb, rfl⟩ := compileOnTerm_ok hp
  have ht := hs.filterTarget field t (by rw [htarget])
  rw [htarget] at ht
  refine ⟨Criterion.build_yields (Expr.testable_within _ kind) ht.expr c b hb, fun m hm => ?_⟩
  obtain ⟨n, -, rfl⟩ := Option.map_eq_some_iff.1 hm
  exact ht.expr

/-- **The nonexistence of rows** is a condition on the root row alone. -/
theorem within_nonexistence {inner : Scope} (hinner : s.detached.Grows inner) {p : Predicate}
    (hp : p.Within inner.labels fun _ => False) : (nonexistence s inner p).Within s.labels s.about := by
  have hcount := hp.countTest
  unfold nonexistence
  refine .not (.nonempty (Scope.about_correlated hinner fun e he => ?_))
  have hall : e.Within inner.labels fun _ => False := by
    cases hc : p.countTest with
    | none =>
      rw [hc] at he
      have hmem : e = .value (.int32 1) ∨ e = p.expr := by simpa using he
      rcases hmem with rfl | rfl
      · exact .value _
      · exact hp.expr
    | some count =>
      rw [hc] at he hcount
      have hmem : e = .value (.int32 1) ∨ e = p.expr ∨ e = inner.identity.expr ∨ e = count := by simpa using he
      rcases hmem with rfl | rfl | rfl | rfl
      · exact .value _
      · exact hp.expr
      · exact inner.identity_within.expr
      · exact hcount e rfl
  exact ⟨hall.columns, List.eq_nil_iff_forall_not_mem.2 hall.subqueries⟩

theorem within_compile (hs : s.Closed s.about) (field : String) (c : Criterion) (ps : List Parameter) :
    ∀ p, (compile s field c ps).outcome = .ok p → p.Within (compile s field c ps).scope.labels s.about := by
  intro p hp
  unfold compile at hp ⊢
  cases c with
  | negation inner =>
    simp only at hp ⊢
    split at hp
    · next hshadowed =>
      rw [if_pos hshadowed]
      exact within_compileOnTerm hs field _ ps p hp
    · next hshadowed =>
      rw [if_neg hshadowed]
      have hgrows := grows_compileOnTerm s.detached field inner ps
      have hpositive := within_compileOnTerm s.closed_detached field inner ps
      generalize compileOnTerm s.detached field inner ps = positive at hgrows hpositive hp
      obtain ⟨inside, ps', e | q⟩ := positive
      · cases hp
      · simp only at hp ⊢
        split at hp
        · next hmany =>
          rw [if_pos hmany]
          cases hp
          exact ⟨within_nonexistence hgrows (hpositive q rfl), fun m hm => by cases hm⟩
        · next hmany =>
          rw [if_neg hmany]
          exact within_compileOnTerm ((Scope.grows_opened s).closed hs) field _ ps p hp
  | null | value | alternatives | numeric | enumerated | boolean | textMatch =>
    exact within_compileOnTerm hs field _ ps p hp

end

theorem within_compileAll {s : Scope} (hs : s.Closed kind) (habout : s.about = kind) {fs : List Filter}
    {ps : List Parameter} {qs : List Predicate} (h : (compileAll s ps fs).outcome = .ok qs) :
    ∀ q ∈ qs, q.Within (compileAll s ps fs).scope.labels kind := by
  refine compileAll_forall (I := fun s => s.Closed kind ∧ s.about = kind) (P := fun s q => q.Within s.labels kind)
    (fun f _ s ps hs => ?_) (fun hgrows hq => hq.mono hgrows.labels) (fun f _ s ps p hs hp => ?_) ⟨hs, habout⟩ h
  · have hgrows := grows_compile s f.path f.criterion ps
    exact ⟨hgrows.closed hs.1, hgrows.about.trans hs.2⟩
  · obtain ⟨hs, rfl⟩ := hs
    exact within_compile hs f.path f.criterion ps p hp

/-! ## Restrictions -/

def Restriction.Within (seen : String → Prop) (kind : Subquery → Prop) (r : Restriction) : Prop :=
  ∀ e ∈ r.conditions ++ r.having, e.Within seen kind

namespace Restriction
variable {r : Restriction}

theorem Within.addPredicate (hr : r.Within seen kind) {p : Predicate} (hp : p.Within seen kind) :
    (r.addPredicate p).Within seen kind := by
  intro e he
  have hmem : e ∈ r.conditions ++ r.having ∨ e = p.expr ∨ e ∈ p.countTest := by
    unfold Restriction.addPredicate at he
    cases hlevel : p.level <;> rw [hlevel] at he <;> simp at he ⊢ <;> tauto
  rcases hmem with hmem | rfl | hmem
  · exact hr e hmem
  · exact hp.expr
  · exact hp.countTest e hmem

theorem Within.foldl_addPredicate : ∀ {ps : List Predicate} {r : Restriction}, r.Within seen kind →
    (∀ p ∈ ps, p.Within seen kind) → (ps.foldl Restriction.addPredicate r).Within seen kind
  | [], _, hr, _ => hr
  | p :: ps, r, hr, hps => by
    have hfirst : (r.addPredicate p).Within seen kind := hr.addPredicate (hps p List.mem_cons_self)
    rw [List.foldl_cons]
    exact Within.foldl_addPredicate hfirst fun q hq => hps q (List.mem_cons_of_mem p hq)

theorem Within.addOptional (hr : r.Within seen kind) {ps : List Predicate} (hps : ∀ p ∈ ps, p.Within seen kind) :
    (r.addOptional ps).Within seen kind := by
  unfold Restriction.addOptional
  cases hany : Expr.disjunction (ps.map Predicate.expr) with
  | none => exact hr
  | some e =>
    have he : e.Within seen kind := by
      refine disjunction_closed (Expr.testable_within seen kind) (fun x hx => ?_) hany
      obtain ⟨p, hp, rfl⟩ := List.mem_map.1 hx
      exact (hps p hp).expr
    intro x hx
    have hmem : x ∈ r.conditions ++ r.having ∨ x = e := by
      simp only at hx
      split at hx <;> simp at hx ⊢ <;> tauto
    rcases hmem with hmem | rfl
    · exact hr x hmem
    · exact he

theorem Within.route (hr : r.Within seen kind) {must may : List Predicate} (hmust : ∀ p ∈ must, p.Within seen kind)
    (hmay : ∀ p ∈ may, p.Within seen kind) (identity : Expr) : (r.route must may identity).Within seen kind := by
  unfold Restriction.Within
  rw [conditions_route, having_route]
  exact (hr.foldl_addPredicate hmust).addOptional hmay

end Restriction

/-! ## Preparations -/

def Projection.Within (seen : String → Prop) (kind : Subquery → Prop) (p : Projection) : Prop :=
  ∀ x ∈ p, x.2.Within seen kind

theorem Projection.Within.mono (hsub : ∀ l, seen l → seen' l) {p : Projection} (h : Projection.Within seen kind p) :
    Projection.Within seen' kind p := fun x hx => (h x hx).mono hsub

theorem Projection.forall_put {P : Term → Prop} {p : Projection} (hp : ∀ x ∈ p, P x.2) (name : String) {t : Term}
    (ht : P t) : ∀ x ∈ p.put name t, P x.2 := by
  intro x hx
  unfold Projection.put at hx
  split at hx
  · obtain ⟨y, hy, rfl⟩ := List.mem_map.1 hx
    split
    · exact ht
    · exact hp y hy
  · rcases List.mem_append.1 hx with hx | hx
    · exact hp x hx
    · exact List.mem_singleton.1 hx ▸ ht

section
variable {s : Scope} {terms : List Term}

theorem Operator.within_apply {e : Expr} (he : e.Within seen kind) (op : Operator) : (op.apply e).Within seen kind := by
  cases op with
  | lower => exact he.call (.inl rfl)
  | not => exact he.not
  | isNull => exact he.isNull
  | isNotNull => exact he.isNotNull
  | inValues | like => exact ⟨he.1, he.2, he.3⟩

theorem Connective.within_apply {a b : Expr} (ha : a.Within seen kind) (hb : b.Within seen kind) (op : Connective) :
    (op.apply a b).Within seen kind := by
  cases op with
  | compare op => exact ha.compare op hb
  | and => exact ha.and hb
  | or => exact ha.or hb

/-- **A condition of a recipe**, however it is put together, stays within the labels of its scope if the terms do. -/
theorem Formula.within_expr (hterms : ∀ t ∈ terms, t.Within s.labels kind) : ∀ f : Formula,
    (f.expr s terms).Within s.labels kind
  | .term i => by
    unfold Formula.expr
    cases ht : terms[i]? with
    | none => exact s.identity_within.expr
    | some t => exact (hterms t (List.mem_of_getElem? ht)).expr
  | .identity => s.identity_within.expr
  | .column name => .col s.labels_self name
  | .value v => .value v
  | .apply op f => op.within_apply (f.within_expr hterms)
  | .combine op f g => op.within_apply (f.within_expr hterms) (g.within_expr hterms)
  | .between f low high => (f.within_expr hterms).between (low.within_expr hterms) (high.within_expr hterms)

end

/-- The scope, the fields, the conditions and the terms of a run so far, its subqueries being about the root row. -/
structure RunState.Closed (kind : Subquery → Prop) (st : RunState) : Prop where
  about : st.scope.about = kind
  scope : st.scope.Closed kind
  fields : Projection.Within st.scope.labels kind st.fields
  conditions : ∀ e ∈ st.conditions, e.Within st.scope.labels kind
  terms : ∀ t ∈ st.terms, t.Within st.scope.labels kind

namespace RunState
variable {st : RunState}

theorem Closed.withTerm (hst : st.Closed kind) {s : Scope} (hgrows : st.scope.Grows s) (field : Option String)
    {t : Term} (ht : t.Within s.labels kind) : (st.withTerm s field t).Closed kind := by
  refine ⟨hgrows.about.trans hst.about, hgrows.closed hst.scope, ?_,
    fun e he => (hst.conditions e he).mono hgrows.labels, fun u hu => ?_⟩
  · cases field with
    | none => exact hst.fields.mono hgrows.labels
    | some name => exact Projection.forall_put (hst.fields.mono hgrows.labels) name ht
  · rw [terms_withTerm] at hu
    rcases List.mem_append.1 hu with hu | hu
    · exact (hst.terms u hu).mono hgrows.labels
    · exact List.mem_singleton.1 hu ▸ ht

theorem Closed.withScope (hst : st.Closed kind) {s : Scope} (hgrows : st.scope.Grows s) :
    { st with scope := s }.Closed kind :=
  ⟨hgrows.about.trans hst.about, hgrows.closed hst.scope, hst.fields.mono hgrows.labels,
    fun e he => (hst.conditions e he).mono hgrows.labels, fun t ht => (hst.terms t ht).mono hgrows.labels⟩

theorem Closed.withCondition (hst : st.Closed kind) {e : Expr} (he : e.Within st.scope.labels kind) :
    (st.withCondition e).Closed kind := by
  refine ⟨hst.about, hst.scope, hst.fields, fun x hx => ?_, fun t ht => ?_⟩
  · rcases List.mem_append.1 hx with hx | hx
    · exact hst.conditions x hx
    · exact List.mem_singleton.1 hx ▸ he
  · rw [terms_withCondition] at ht
    exact hst.terms t ht

theorem Closed.read (hst : st.Closed kind) (m : Measure) (field : Option String) (path : String) :
    (st.read m field path).1.Closed kind := by
  have hfound := Scope.Closed.measure (hst.about.symm ▸ hst.scope) m path
  have hgrows := Scope.grows_measure st.scope m path
  rcases st.read_cases m field path with ⟨s, t, hmeasure, hread⟩ | ⟨s, e, hmeasure, hread⟩
  · rw [hmeasure] at hfound hgrows
    rw [hread]
    exact hst.withTerm hgrows field (hst.about ▸ hfound t rfl)
  · rw [hmeasure] at hgrows
    rw [hread]
    exact hst.withScope hgrows

/-- **A step of a recipe** adds terms and conditions within the labels that the scope has after it. -/
theorem Closed.step (hst : st.Closed kind) (x : Step) : (st.step x).1.Closed kind := by
  cases x with
  | measure m field path => exact hst.read m field path
  | attempt m path => exact hst.read m none path
  | identity field => exact hst.withTerm (.refl _) field st.scope.identity_within
  | constant field v type origin => exact hst.withTerm (.refl _) field ⟨.value v, fun _ => rfl⟩
  | condition f => exact hst.withCondition (f.within_expr hst.terms)

theorem Closed.steps (hst : st.Closed kind) (xs : List Step) : (st.steps xs).1.Closed kind :=
  steps_keep (fun _ x hst => hst.step x) xs hst

end RunState

/-- What a preparation hands on stays within the labels of its scope, and its subqueries are about the root row. -/
structure Prepared.Closed (p : Prepared) : Prop where
  scope : p.scope.Closed p.scope.about
  projection : Projection.Within p.scope.labels p.scope.about (p.projection.getD [])
  restriction : p.restriction.Within p.scope.labels p.scope.about

theorem closed_restrict {s : Scope} (hs : s.Closed s.about) {r : Request} {projection : Option Projection}
    (hprojection : Projection.Within s.labels s.about (projection.getD [])) {conditions : List Expr}
    (hconditions : ∀ e ∈ conditions, e.Within s.labels s.about) {p : Prepared}
    (h : (restrict s r projection conditions).2 = .ok p) : p.Closed := by
  obtain ⟨must, may, hmust, hmay, rfl⟩ := restrict_ok h
  have hgrows₁ := grows_compileAll s [] r.required
  have hgrows₂ := grows_compileAll (compileAll s [] r.required).scope (compileAll s [] r.required).parameters r.optional
  have hgrows := hgrows₁.trans hgrows₂
  have hrequired := within_compileAll hs rfl hmust
  have hoptional := within_compileAll (hgrows₁.closed hs) hgrows₁.about hmay
  refine ⟨?_, ?_, ?_⟩
  all_goals simp only [hgrows.about]
  · exact hgrows.closed hs
  · exact hprojection.mono hgrows.labels
  · refine Restriction.Within.route (fun e he => ?_) (fun p hp => (hrequired p hp).mono hgrows₂.labels) hoptional _
    have hmem : e ∈ conditions := by simpa [Restriction.ofConditions] using he
    exact (hconditions e hmem).mono hgrows.labels

/-- **A preparation is closed**, whatever its recipe and its request. -/
theorem closed_prepare {catalog : Catalog} {root : Entity} {r : Request} {recipe : Option Recipe} {label : String}
    {p : Prepared} (h : (prepare catalog root r recipe label).2 = .ok p) : p.Closed := by
  have hnew : (Scope.new catalog root label).Closed (Scope.new catalog root label).about := Scope.closed_new _ _ _
  rcases prepare_ok h with ⟨-, h⟩ | ⟨x, st, -, hrun, h⟩
  · exact closed_restrict hnew (fun x hx => (List.not_mem_nil hx).elim) (fun e he => (List.not_mem_nil he).elim) h
  · have hstart : (⟨Scope.new catalog root label, [], [], []⟩ : RunState).Closed _ :=
      ⟨rfl, hnew, fun x hx => (List.not_mem_nil hx).elim, fun e he => (List.not_mem_nil he).elim,
        fun t ht => (List.not_mem_nil ht).elim⟩
    have hst : st.Closed _ := congrArg Prod.fst hrun ▸ hstart.steps x.steps
    have habout : (st.scope.withFields (x.projection? st)).about = _ := hst.about
    have hprojection : Projection.Within st.scope.labels (Scope.new catalog root label).about
        ((x.projection? st).getD []) := by
      unfold Recipe.projection?
      split
      · exact fun y hy => (List.not_mem_nil hy).elim
      · exact hst.fields
    have hscope : (st.scope.withFields (x.projection? st)).Closed (Scope.new catalog root label).about :=
      ⟨hst.scope.laid, hprojection⟩
    exact closed_restrict (habout ▸ hscope) (habout ▸ hprojection) (habout ▸ hst.conditions) h

/-- The conditions of a preparation are steady: joins added later change nothing that they mean. -/
theorem Prepared.Closed.steady {p : Prepared} (hp : p.Closed) (d : Dialect) (db : Store) :
    ∀ e ∈ p.restriction.conditions ++ p.restriction.having, e.Steady d db p.scope.labels := fun e he =>
  (hp.restriction e he).steady fun _ hq _ _ hwv => hq.1.eval_congr p.scope.labels_self hwv

/-! ## Orderings -/

theorem within_collapse {t : Term} (ht : t.Within seen kind) (ascending : Bool) :
    (collapse t ascending).Within seen kind := by
  unfold collapse
  split
  · refine ⟨?_, fun hplain => by cases hplain⟩
    cases ascending <;> exact ht.expr.call (.inr rfl)
  · exact ht

theorem within_orderTerms {s s' : Scope} (hs : s.Closed kind) {r : Request} {orders : List OrderTerm}
    (h : orderTerms s r = (s', .ok orders)) : ∀ o ∈ orders, o.term.Within s'.labels kind :=
  orderTerms_forall (I := fun s => s.Closed kind) (P := fun s o => o.term.Within s.labels kind)
    (fun o _ s hs => (Scope.grows_readTarget s o.path).closed hs) (fun hgrows ho => ho.mono hgrows.labels)
    (fun o _ _ t hs ht => within_collapse (hs.readTarget o.path t ht) o.ascending) hs h

end PageQuery
