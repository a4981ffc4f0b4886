import PageQuery.Proofs.Closed
/-!
# Every statement of a page is closed

The rows are read by a statement that names its own labels only; its subqueries, those of negations and of sums and
averages, are about its root row.  The total is a statement over the root alone; its one subquery is the restriction of
the rows under a label of its own, with subqueries about that label's root row.
-/
namespace PageQuery

section
variable {catalog : Catalog} {root : Entity} {label : String} {p : Prepared}

/-! ## The rows -/

theorem Prepared.Under.about (hunder : p.Under catalog root label) :
    p.scope.about = (Scope.new catalog root label).about := by
  unfold Scope.about
  rw [hunder.label, hunder.root, hunder.catalog]
  rfl

theorem Prepared.Under.base (hunder : p.Under catalog root label) : p.scope.base = Scope.new catalog root label := by
  unfold Scope.base
  rw [hunder.catalog, hunder.root, hunder.label]

theorem Prepared.Closed.clauses (hp : p.Closed) (hunder : p.Under catalog root label) :
    ∀ e ∈ p.restriction.conditions ++ p.restriction.groupBy ++ p.restriction.having,
      e.Within p.scope.labels p.scope.about := by
  intro e he
  have hidentity : ∀ x ∈ p.restriction.groupBy, x = Expr.col p.scope.label root.identityColumn := by
    rw [hunder.groupBy, hunder.label]
    split
    · exact fun x hx => (List.not_mem_nil hx).elim
    · exact fun x hx => List.mem_singleton.1 hx
  rw [List.mem_append, List.mem_append] at he
  rcases he with (he | he) | he
  · exact hp.restriction e (List.mem_append_left _ he)
  · rw [hidentity e he]
    exact .col p.scope.labels_self _
  · exact hp.restriction e (List.mem_append_right _ he)

theorem within_outputOf {s : Scope} {projection : Option Projection} {kind : Subquery → Prop}
    (h : Projection.Within s.labels kind (projection.getD [])) :
    (∀ i ∈ (outputOf s projection).1, i.expr.Within s.labels kind) ∧
      ∀ x ∈ (outputOf s projection).2.2, x.expr.Within s.labels kind := by
  cases projection with
  | none =>
    refine ⟨fun i hi => ?_, fun x hx => ?_⟩
    · obtain ⟨c, -, rfl⟩ := List.mem_map.1 hi
      exact .col s.labels_self _
    · obtain ⟨c, -, rfl⟩ := List.mem_map.1 hx
      exact .col s.labels_self _
  | some fields =>
    refine ⟨fun i hi => ?_, fun x hx => ?_⟩
    · obtain ⟨f, hf, rfl⟩ := List.mem_map.1 hi
      exact (h f hf).expr
    · obtain ⟨f, hf, rfl⟩ := List.mem_map.1 hx
      exact (h f hf).expr

theorem DataParts.closed {r : Request} {data : Plan} {s : Scope} {orders : List OrderTerm}
    (hparts : DataParts r p data s orders) (hp : p.Closed) (hunder : p.Under catalog root dataLabel) :
    data.statement.body.Closed [] (Scope.new catalog root dataLabel).about := by
  have hgrows := hparts.grows
  have hlabel : s.label = dataLabel := hgrows.label.trans hunder.label
  have habout := hunder.about
  have hlabels : ∀ l, s.labels l → l ∈ data.statement.body.labels := by
    intro l hl
    show l ∈ data.statement.label :: data.statement.joins.map Join.label
    rw [hparts.label, hparts.joins, ← hlabel]
    exact hl
  have hclause : ∀ e ∈ data.statement.body.clauses, e.Within s.labels p.scope.about := by
    obtain ⟨houtput, hselected⟩ := within_outputOf hp.projection
    have horders := within_orderTerms hp.scope hparts.ordering
    have hrestriction := hp.clauses hunder
    obtain ⟨extra, hitems, hextra⟩ := hparts.items
    intro e he
    simp only [Statement.body, List.mem_append] at he
    rcases he with (hitem | (hcondition | hgroup) | hhaving) | horder
    · obtain ⟨i, hi, rfl⟩ := List.mem_map.1 hitem
      rw [hitems, List.mem_append] at hi
      rcases hi with hi | hi
      · exact (houtput i hi).mono hgrows.labels
      · -- a sort key put out for DISTINCT
        rw [hextra] at hi
        split at hi
        · obtain ⟨o, ho, hoe, -⟩ := (mem_extraItems 0 orders).1 (List.mem_map_of_mem hi)
          exact hoe ▸ (horders o ho).expr
        · exact (List.not_mem_nil hi).elim
    · rw [hparts.conditions] at hcondition
      exact (hrestriction e (by simp [hcondition])).mono hgrows.labels
    · rw [hparts.groupBy] at hgroup
      rcases of_mem_dataGrouping hgroup with hmem | rfl | ⟨x, hx, rfl⟩ | ⟨o, ho, rfl⟩
      · exact (hrestriction e (by simp [hmem])).mono hgrows.labels
      · exact s.identity_within.expr
      · exact (hselected x hx).mono hgrows.labels
      · exact (horders o ho).expr
    · rw [hparts.having] at hhaving
      exact (hrestriction e (by simp [hhaving])).mono hgrows.labels
    · obtain ⟨k, hk, rfl⟩ := List.mem_map.1 horder
      rw [hparts.orderBy] at hk
      obtain ⟨o, ho, rfl⟩ := List.mem_map.1 hk
      exact (horders o ho).expr
  refine ⟨?_, Body.foreign_eq_nil fun e he c hc => hlabels _ ((hclause e he).columns c hc), fun e he q hq => ?_⟩
  · show Join.InOrder [data.statement.label] data.statement.joins
    rw [hparts.label, hparts.joins, ← hlabel]
    exact (hgrows.laid hp.scope.laid).ordered.inOrder
  · rw [← habout]
    exact (hclause e he).subqueries q hq

/-! ## The total -/

def countOuter (root : Entity) : CountIdiom → List Column
  | .inQuery => []
  | .existsQuery => [⟨countLabel, root.identityColumn⟩]

/-- The subquery leaves the identities to be counted: it names its own labels only, but for the identity counted where
it is asked for existence, and its own subqueries are about its root row. -/
def Subquery.Counted (root : Entity) (idiom : CountIdiom) (q : Subquery) : Prop :=
  q.body.Closed (countOuter root idiom) (Subquery.About ⟨q.body.label, root.identityColumn⟩)

def Subquery.CountedOver (catalog : Catalog) (root : Entity) (idiom : CountIdiom) (q : Subquery) : Prop :=
  q.body.Closed (countOuter root idiom) (Scope.new catalog root q.body.label).about ∧ q.body.Joins catalog root

theorem Subquery.CountedOver.counted {idiom : CountIdiom} {q : Subquery} (h : q.CountedOver catalog root idiom) :
    q.Counted root idiom := h.1.imp fun _ hp => hp.1

theorem closed_countStatement {kind : Subquery → Prop} (root : Entity) {conditions : List Expr}
    (h : ∀ e ∈ conditions, (∀ c ∈ e.columns, c.source = countLabel) ∧ ∀ q ∈ e.subqueries, kind q) :
    (countStatement root conditions).body.Closed [] kind := by
  have hclauses : ∀ e ∈ (countStatement root conditions).body.clauses,
      e = .call .count (Expr.col countLabel root.identityColumn) ∨ e ∈ conditions := fun e he => by
    simpa [Statement.body, countStatement] using he
  refine ⟨trivial, Body.foreign_eq_nil fun e he c hc => ?_, fun e he q hq => ?_⟩
  · have hsource : c.source = countLabel := by
      rcases hclauses e he with rfl | he
      · rw [List.mem_singleton.1 hc]
      · exact (h e he).1 c hc
    rw [hsource]
    exact List.mem_cons_self
  · rcases hclauses e he with rfl | he
    · exact (List.not_mem_nil hq).elim
    · exact (h e he).2 q hq

theorem Prepared.Closed.countPlanOver (hp : p.Closed) (hunder : p.Under catalog root label) (hne : countLabel ≠ label)
    (hlength : countLabel.length ≤ label.length) (caps : Capabilities) (parameters : List Parameter) :
    (countPlanOver root caps label p.scope.joinList p.restriction parameters).statement.body.Closed []
      (Subquery.CountedOver catalog root caps.countIdiom) := by
  have hclauses := hp.clauses hunder
  have hself : label ∈ label :: p.scope.joinList.map Join.label := List.mem_cons_self
  have hlabels : ∀ l, p.scope.labels l ↔ l ∈ label :: p.scope.joinList.map Join.label := by
    rw [← hunder.label]
    exact fun _ => Iff.rfl
  have hhidden : countLabel ∉ label :: p.scope.joinList.map Join.label := by
    rw [← hlabels]
    exact hp.scope.laid.not_labels (by rwa [hunder.label]) (by rwa [hunder.label])
  have hinOrder : Join.InOrder [label] p.scope.joinList := by
    rw [← hunder.label]
    exact hp.scope.laid.ordered.inOrder
  have hjoins : ∀ clauses, (⟨label, p.scope.joinList, clauses⟩ : Body).Joins catalog root := by
    rw [← hunder.label, ← hunder.catalog, ← hunder.root]
    exact hp.scope.laid.joins
  rw [hunder.about] at hclauses
  refine closed_countStatement root fun e he => ?_
  rw [List.mem_singleton.1 he]
  cases hidiom : caps.countIdiom with
  | inQuery =>
    refine ⟨fun c hc => by rw [List.mem_singleton.1 hc], fun q hq => ?_⟩
    rw [List.mem_singleton.1 hq]
    refine ⟨⟨hinOrder, Body.foreign_eq_nil fun e he c hc => ?_, fun e he q hq => ?_⟩, hjoins _⟩
    · rcases List.mem_cons.1 he with rfl | he
      · rwa [List.mem_singleton.1 hc]
      · exact (hlabels _).1 ((hclauses e he).columns c hc)
    · rcases List.mem_cons.1 he with rfl | he
      · exact (List.not_mem_nil hq).elim
      · exact (hclauses e he).subqueries q hq
  | existsQuery =>
    refine ⟨fun c hc => (List.not_mem_nil hc).elim, fun q hq => ?_⟩
    rw [List.mem_singleton.1 hq]
    have hlink : (identitySubquery root label p.scope.joinList (p.restriction.conditions ++
          [Expr.eq (Expr.col label root.identityColumn) (Expr.col countLabel root.identityColumn)])
          p.restriction).body.clauses =
        (Expr.col label root.identityColumn :: p.restriction.conditions) ++
          Expr.eq (.column ⟨label, root.identityColumn⟩) (.column ⟨countLabel, root.identityColumn⟩) ::
            (p.restriction.groupBy ++ p.restriction.having) := by
      simp [identitySubquery, Subquery.body, Expr.col]
    refine ⟨⟨hinOrder, Body.foreign_link hlink (fun e he c hc => ?_) hself hhidden, fun e he q hq => ?_⟩, hjoins _⟩
    · have hmem : e = Expr.col label root.identityColumn ∨
          e ∈ p.restriction.conditions ++ p.restriction.groupBy ++ p.restriction.having := by simpa using he
      rcases hmem with rfl | hmem
      · rwa [List.mem_singleton.1 hc]
      · exact (hlabels _).1 ((hclauses e hmem).columns c hc)
    · rw [hlink] at he
      have hmem : e = Expr.col label root.identityColumn ∨
          e = Expr.eq (.column ⟨label, root.identityColumn⟩) (.column ⟨countLabel, root.identityColumn⟩) ∨
          e ∈ p.restriction.conditions ++ p.restriction.groupBy ++ p.restriction.having := by
        simp only [List.mem_append, List.mem_cons] at he ⊢
        tauto
      rcases hmem with rfl | rfl | hmem
      · exact (List.not_mem_nil hq).elim
      · exact (List.not_mem_nil hq).elim
      · exact (hclauses e hmem).subqueries q hq

theorem closed_countPlan {caps : Capabilities} {r : Request} {recipe again : Option Recipe} {data count : Plan}
    (hprepare : (prepare catalog root r recipe dataLabel).2 = .ok p) (hdata : dataPlan r p = .ok data)
    (h : (countPlan catalog root caps r again data p).2 = .ok count) :
    count.statement.joins = [] ∧
      count.statement.body.Closed [] (Subquery.CountedOver catalog root caps.countIdiom) := by
  rcases countPlan_cases h with ⟨-, hstatement, -⟩ | ⟨-, hcopied, rfl⟩ | ⟨-, -, q, hagain, rfl⟩
  · rw [hstatement]
    exact ⟨rfl, closed_countStatement root fun e he => (List.not_mem_nil he).elim⟩
  · -- the restriction is copied without its joins only where there are none
    obtain ⟨s, orders, hparts⟩ := dataPlan_ok hdata
    rw [Bool.and_eq_true, Bool.not_eq_true', hparts.joined] at hcopied
    have hnone : s.joins = [] := by
      simpa [Scope.hasJoins] using hcopied.2
    have hjoins : p.scope.joins = [] := List.prefix_nil.1 (hnone ▸ hparts.grows.joins)
    have hclosed := (closed_prepare hprepare).countPlanOver (under_prepare hprepare) (by decide) (by decide) caps
      p.parameters
    rw [Scope.joinList, hjoins] at hclosed
    exact ⟨rfl, hclosed⟩
  · exact ⟨rfl, (closed_prepare hagain).countPlanOver (under_prepare hagain) (by decide) (by decide) caps _⟩

/-! ## Both -/

section
variable {caps : Capabilities} {r : Request} {wantCount : Bool} {builder : Option Builder} {requireProjection : Bool}
  {plan : PagePlan} (h : (PagePlan.buildFor catalog root caps r wantCount builder requireProjection).2 = .ok plan)
include h

theorem closed_data : plan.data.statement.label = dataLabel ∧
    plan.data.statement.body.Closed [] (Scope.new catalog root dataLabel).about ∧
    plan.data.statement.body.Joins catalog root := by
  obtain ⟨p, hprepare, hdata, -⟩ := buildFor_ok h
  obtain ⟨s, orders, hparts⟩ := dataPlan_ok hdata
  have hclosed := closed_prepare hprepare
  have hunder := under_prepare hprepare
  have hjoins := (hparts.grows.laid hclosed.scope.laid).joins plan.data.statement.body.clauses
  rw [hparts.grows.catalog, hparts.grows.root, hparts.grows.label, hunder.catalog, hunder.root, hunder.label,
    ← hparts.label, ← hparts.joins] at hjoins
  exact ⟨hparts.label, hparts.closed hclosed hunder, hjoins⟩

theorem closed_count {count : Plan} (hsome : plan.count = some count) : count.statement.joins = [] ∧
    count.statement.body.Closed [] (Subquery.CountedOver catalog root caps.countIdiom) := by
  obtain ⟨p, hprepare, hdata, hnone, hcount⟩ := buildFor_ok h
  cases wantCount with
  | false =>
    rw [hnone rfl] at hsome
    cases hsome
  | true =>
    obtain ⟨count', hsome', hok⟩ := hcount rfl
    rw [hsome'] at hsome
    cases hsome
    exact closed_countPlan hprepare hdata hok

/-- **Every statement of a page is closed**, whatever conditions a builder puts together and whether or not it does the
same under both labels. -/
theorem build_closed :
    plan.data.statement.body.Closed [] (Subquery.About ⟨plan.data.statement.label, root.identityColumn⟩) ∧
      ∀ count ∈ plan.count, count.statement.body.Closed [] (Subquery.Counted root caps.countIdiom) := by
  obtain ⟨hlabel, hdata, -⟩ := closed_data h
  refine ⟨hdata.imp fun q hq => ?_, fun count hcount => (closed_count h hcount).2.imp fun q hq => hq.counted⟩
  rw [hlabel]
  exact hq.1

end

end

namespace Sample

/-- The amount spent by those who spent more than their mean order or have a name that does not start with an a, and who
have a name at all, which is asked under the label of the rows only.  An attempt to read what is no attribute makes no
difference. -/
def bigSpenders : Builder := fun label =>
  ⟨[.measure .path (some "name") "name", .measure .sum (some "total") "orders.amount",
      .attempt .path "nickname", .measure .avg none "orders.amount",
      .condition (.combine .or (.combine (.compare .gt) (.term 1) (.term 2))
        (.apply .not (.apply (.like "a%") (.apply .lower (.term 0)))))] ++
    if label = dataLabel then [.condition (.apply .isNotNull (.column "name"))] else [], false⟩

def withoutItems : Request :=
  { Request.all with ordering := [⟨"total", true⟩], required := [⟨"orders.items", .negation bothItems⟩] }

end Sample

open Sample in
/-- Both statements are closed, and the rows are read with subqueries for the sum where it is put out, compared and
sorted by, for the mean, and for the negation. -/
theorem big_spenders_closed :
    ∃ plan count, (PagePlan.buildFor catalog person Backend.mysql.capabilities withoutItems true (some bigSpenders)
        true).2 = .ok plan ∧ plan.count = some count ∧
      plan.data.statement.conditions.length = 3 ∧
      (plan.data.statement.body.clauses.flatMap Expr.subqueries).length = 5 ∧
      plan.data.statement.body.Closed [] (Subquery.About ⟨"e", "id"⟩) ∧
      count.statement.body.Closed [] (Subquery.Counted person .existsQuery) := by
  obtain ⟨plan, hplan, hconditions, hsubqueries, hlabel, hcount⟩ := exists_ok
    (P := fun plan : PagePlan => plan.data.statement.conditions.length = 3 ∧
      (plan.data.statement.body.clauses.flatMap Expr.subqueries).length = 5 ∧
      plan.data.statement.label = "e" ∧ plan.count.isSome = true)
    (x := (PagePlan.buildFor catalog person Backend.mysql.capabilities withoutItems true (some bigSpenders) true).2)
    (by decide +kernel)
  obtain ⟨count, hcount⟩ := Option.isSome_iff_exists.1 hcount
  obtain ⟨hdata, htotal⟩ := build_closed hplan
  rw [hlabel] at hdata
  exact ⟨plan, count, hplan, hcount, hconditions, hsubqueries, hdata, htotal count hcount⟩

end PageQuery
