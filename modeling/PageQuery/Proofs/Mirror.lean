import PageQuery.Proofs.Built
import PageQuery.Proofs.Columns
/-!
# The total looks for what the rows show

When anything is restricted, the identities counted are those of a subquery.  Its restriction is that of the rows,
copied as it stands or prepared anew from the same request under the label `s`; then it differs from the restriction of
the rows by its labels and by nothing else.  It does not order, so it lacks the joins that only the ordering asked for.
-/
namespace PageQuery

/-- The total is of the identities that a restriction leaves, under a label and over some joins; they are grouped by the
identity just if groups are restricted. -/
def CountsOver (root : Entity) (idiom : CountIdiom) (count : Plan) (label : String) (joins : List Join)
    (conditions having : List Expr) : Prop :=
  count.statement = countStatement root
    [let outer := Expr.col countLabel root.identityColumn
     let inner := Expr.col label root.identityColumn
     let groupBy := if having.isEmpty then [] else [inner]
     match idiom with
     | .inQuery => .inQuery outer (.select inner root.table label joins conditions groupBy having)
     | .existsQuery =>
       .nonempty (.select inner root.table label joins (conditions ++ [Expr.eq inner outer]) groupBy having)]

theorem countsOver_countPlanOver {catalog : Catalog} {root : Entity} {label : String} {p : Prepared}
    (hp : p.Under catalog root label) (caps : Capabilities) (joins : List Join) (parameters : List Parameter) :
    CountsOver root caps.countIdiom (countPlanOver root caps label joins p.restriction parameters) label joins
      p.restriction.conditions p.restriction.having := by
  unfold CountsOver countPlanOver countCondition identitySubquery
  cases caps.countIdiom <;> simp only [hp.groupBy]

/-- The total is of the identities that satisfy, under a label and over some joins, the renamed restriction of the
rows, with their parameters. -/
structure Mirrors (root : Entity) (idiom : CountIdiom) (data count : Plan) (label : String) (joins : List Join)
    (rename : Expr → Expr) : Prop where
  statement : CountsOver root idiom count label joins (data.statement.conditions.map rename)
    (data.statement.having.map rename)
  parameters : count.parameters = data.parameters

/-- **The restriction of the total is the restriction of the rows**, copied where the backend allows it and the rows
need no joins; a total of everything has none.  Where it is prepared anew it is the restriction under the label `s`, for
every builder that does the same under both labels, whatever conditions it puts together. -/
theorem count_mirrors_data {catalog : Catalog} {root : Entity} {caps : Capabilities} {r : Request}
    {builder : Option Builder} {requireProjection : Bool} {plan : PagePlan}
    (h : (PagePlan.buildFor catalog root caps r true builder requireProjection).2 = .ok plan) :
    ∃ count, plan.count = some count ∧
      (plan.data.statement.conditions = [] ∧ plan.data.statement.having = [] →
        count.statement = countStatement root [] ∧ count.parameters = []) ∧
      (¬(plan.data.statement.conditions = [] ∧ plan.data.statement.having = []) →
        (caps.copiesRestriction = true ∧ plan.data.statement.joins = [] →
          Mirrors root caps.countIdiom plan.data count dataLabel [] id) ∧
        (¬(caps.copiesRestriction = true ∧ plan.data.statement.joins = []) →
          (∃ joins conditions having, CountsOver root caps.countIdiom count subqueryLabel joins conditions having) ∧
          ((∀ b ∈ builder, b subqueryLabel = b dataLabel) →
            ∃ joins, joins <+: plan.data.statement.joins.map (Join.relabel (rebase dataLabel subqueryLabel)) ∧
              Mirrors root caps.countIdiom plan.data count subqueryLabel joins
                (Expr.relabel (rebase dataLabel subqueryLabel))))) := by
  obtain ⟨p, hprepare, hdata, -, hcount⟩ := buildFor_ok h
  obtain ⟨count, hsome, hcount⟩ := hcount rfl
  obtain ⟨s, orders, hparts⟩ := dataPlan_ok hdata
  have hunder := under_prepare hprepare
  have hempty : p.restriction.isEmpty = true ↔
      plan.data.statement.conditions = [] ∧ plan.data.statement.having = [] := by
    rw [hunder.isEmpty_iff, hparts.conditions, hparts.having]
  have hcopies : (caps.copiesRestriction && !plan.data.profile.joined) = true ↔
      caps.copiesRestriction = true ∧ plan.data.statement.joins = [] := by
    rw [Bool.and_eq_true, hparts.joined, hparts.joins]
    simp [Scope.hasJoins, Scope.joinList]
  refine ⟨count, hsome, ?_⟩
  rw [← hempty, ← hcopies]
  rcases countPlan_cases hcount with ⟨hnone, hstatement, hparameters⟩ | ⟨hfull, hcopy, rfl⟩ |
    ⟨hfull, hanew, q, hagain, rfl⟩
  · exact ⟨fun _ => ⟨hstatement, hparameters⟩, fun hbound => absurd hnone hbound⟩
  · refine ⟨fun hnone => ?_, fun _ => ⟨fun _ => ?_, fun hno => absurd hcopy hno⟩⟩
    · rw [hfull] at hnone
      cases hnone
    · refine ⟨?_, hparts.parameters.symm⟩
      rw [List.map_id, List.map_id, hparts.conditions, hparts.having]
      exact countsOver_countPlanOver hunder caps [] p.parameters
  · have hover := countsOver_countPlanOver (under_prepare hagain) caps q.scope.joinList q.parameters
    refine ⟨fun hnone => ?_, fun _ => ⟨fun hcopy => ?_, fun _ => ⟨⟨_, _, _, hover⟩, fun hsame => ?_⟩⟩⟩
    · rw [hfull] at hnone
      cases hnone
    · rw [hanew] at hcopy
      cases hcopy
    · have hmoved := prepare_moved (keepsBehind_rebase dataLabel subqueryLabel) (rebase_self dataLabel subqueryLabel)
        hprepare
      rw [← Option.map_congr hsame, hagain] at hmoved
      cases hmoved
      refine ⟨(p.scope.relabel (rebase dataLabel subqueryLabel)).joinList, ?_, ?_, hparts.parameters.symm⟩
      · rw [Scope.joinList_relabel, hparts.joins]
        exact hparts.grows.joinList.map _
      · rw [hparts.conditions, hparts.having]
        exact hover

namespace Sample

def uneven : Recipe :=
  ⟨[.measure .path (some "name") "name", .measure .sum none "orders.amount", .measure .count none "orders",
    .condition (.combine .and (.combine (.compare .ne) (.term 1) (.term 2))
      (.apply (.inValues [.text "Ada", .text "Bea"]) (.term 0)))], false⟩

def namedRows : Builder := fun label =>
  ⟨.measure .path (some "name") "name" ::
    if label = dataLabel then [.condition (.apply .isNotNull (.column "name"))] else [], false⟩

end Sample

open Sample in
/-- Shoppers called Ada or Bea, the sum of whose amounts is not the number of their orders, are counted in a subquery
under `s`. -/
theorem count_mirrors_uneven_shoppers :
    ∃ plan count, (PagePlan.buildFor catalog person Backend.postgres.capabilities (shoppersBy "orders.amount") true
        (some uneven.always) false).2 = .ok plan ∧ plan.count = some count ∧
      ∃ joins, joins <+: plan.data.statement.joins.map (Join.relabel (rebase dataLabel subqueryLabel)) ∧
        Mirrors person Backend.postgres.capabilities.countIdiom plan.data count subqueryLabel joins
          (Expr.relabel (rebase dataLabel subqueryLabel)) := by
  obtain ⟨plan, hplan, hrestricted, hjoined⟩ := exists_ok (P := fun plan : PagePlan =>
    ¬(plan.data.statement.conditions = [] ∧ plan.data.statement.having = []) ∧
      ¬(Backend.postgres.capabilities.copiesRestriction = true ∧ plan.data.statement.joins = []))
    (x := (PagePlan.buildFor catalog person Backend.postgres.capabilities (shoppersBy "orders.amount") true
      (some uneven.always) false).2)
    (by decide +kernel)
  have hsame : ∀ b ∈ some uneven.always, b subqueryLabel = b dataLabel := fun b hb => by
    cases hb
    rfl
  obtain ⟨count, hcount, -, hmirrors⟩ := count_mirrors_data hplan
  exact ⟨plan, count, hplan, hcount, ((hmirrors hrestricted).2 hjoined).2 hsame⟩

/-! ## Builders that tell the labels apart -/

def Subquery.conditions : Subquery → List Expr
  | .select _ _ _ _ conditions _ _ => conditions

def Plan.inner (count : Plan) : List Expr :=
  (count.statement.conditions.flatMap Expr.subqueries).flatMap Subquery.conditions

theorem Mirrors.length_inner {root : Entity} {data count : Plan} {label : String} {joins : List Join}
    {rename : Expr → Expr} (h : Mirrors root .inQuery data count label joins rename) :
    count.inner.length = data.statement.conditions.length := by
  unfold Plan.inner
  rw [h.statement]
  exact List.length_append.trans (List.length_map rename)

open Sample in
/-- A builder that restricts the root under one label only restricts the rows and not the total: under no labels is the
restriction of the one that of the other. -/
theorem rows_restricted_alone :
    ∃ plan count, (PagePlan.buildFor catalog person Backend.postgres.capabilities (shoppersBy "name") true
        (some namedRows) false).2 = .ok plan ∧ plan.count = some count ∧
      ∀ label joins rename,
        ¬Mirrors person Backend.postgres.capabilities.countIdiom plan.data count label joins rename := by
  obtain ⟨plan, hplan, count, hcount, hlength⟩ := exists_ok (P := fun plan : PagePlan =>
    ∃ count ∈ plan.count, count.inner.length ≠ plan.data.statement.conditions.length)
    (x := (PagePlan.buildFor catalog person Backend.postgres.capabilities (shoppersBy "name") true (some namedRows)
      false).2)
    (by decide +kernel)
  exact ⟨plan, count, hplan, hcount, fun label joins rename hmirrors => hlength hmirrors.length_inner⟩

end PageQuery
