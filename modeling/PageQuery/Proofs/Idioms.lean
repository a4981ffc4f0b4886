import PageQuery.Proofs.Agreement
/-!
# The total is the same under all capabilities

A database that counts by EXISTS is asked, root row by root row, whether anything is left of a subquery about that row's
identity; one that counts by IN is asked whether the identity is among those left of a subquery about all of them.  The
one filters by the identity before it groups, the other groups first.  As the grouping, if any, is by the identity,
filtering before leaves whole groups.  A restriction that is copied, or compiled once more under labels of its own, is
the same again.

Nothing is asked of the identities: several rows may bear one, and those that are NULL satisfy neither condition, nor
does COUNT count them.
-/
namespace PageQuery

section
variable {catalog : Catalog} {root : Entity} {caps : Capabilities} {r : Request} {wantCount : Bool}
  {recipe : Option Recipe} {requireProjection : Bool} {plan : PagePlan}

theorem exists_build_under (h : (PagePlan.build catalog root caps r wantCount recipe requireProjection).2 = .ok plan)
    (other : Capabilities) :
    ∃ plan', (PagePlan.build catalog root other r wantCount recipe requireProjection).2 = .ok plan' ∧
      plan'.data = plan.data := by
  obtain ⟨p, hprepare, hdata, -⟩ := build_ok h
  by_cases hrequired : (requireProjection && p.projection.isNone) = true
  · unfold PagePlan.build PagePlan.buildFor at h
    rw [Recipe.map_always] at h
    rcases hp : prepare catalog root r recipe dataLabel with ⟨journal, outcome⟩
    rw [hp] at h hprepare
    cases hprepare
    simp only [hrequired, if_true] at h
    cases h
  · exact exists_build_of_data hprepare hdata other wantCount (Bool.eq_false_iff.2 hrequired)

/-- **Under all capabilities the total is one number**, over every database: whether it is counted by IN or by EXISTS,
and whether or not a restriction without joins may be copied. -/
theorem count_idioms_agree (h : (PagePlan.build catalog root caps r true recipe requireProjection).2 = .ok plan)
    (other : Capabilities) :
    ∃ plan' one two, (PagePlan.build catalog root other r true recipe requireProjection).2 = .ok plan' ∧
      plan'.data = plan.data ∧ plan.count = some one ∧ plan'.count = some two ∧
      ∀ (d : Dialect) (db : Store), ∃ n : Nat, one.statement.value d db = some (countValue n) ∧
        two.statement.value d db = some (countValue n) := by
  obtain ⟨plan', hplan', hsame⟩ := exists_build_under h other
  obtain ⟨p, hprepare, hdata, hcount⟩ := build_ok h
  obtain ⟨one, hone, hcount⟩ := hcount rfl
  obtain ⟨p', hprepare', -, hcount'⟩ := build_ok hplan'
  rw [hprepare] at hprepare'
  cases hprepare'
  obtain ⟨two, htwo, hcount'⟩ := hcount' rfl
  rw [hsame] at hcount'
  obtain ⟨s, orders, hparts⟩ := dataPlan_ok hdata
  obtain ⟨⟨conditions, hstatement⟩, hadmits⟩ := admits_countPlan_iff hprepare hparts hcount
  obtain ⟨⟨conditions', hstatement'⟩, hadmits'⟩ := admits_countPlan_iff hprepare hparts hcount'
  refine ⟨plan', one, two, hplan', hsame, hone, htwo, fun d db => ?_⟩
  refine ⟨(db.rows root.table).countP fun row => (row root.identityColumn).isSome && one.statement.admits d db row,
    ?_, ?_⟩
  · rw [hstatement]
    exact value_countStatement_filled root conditions
  · rw [hstatement', value_countStatement_filled, ← hstatement']
    -- both conditions say of a root row with an identity that the preparation shows it
    congr 2
    refine List.countP_congr fun row hrow => ?_
    rw [Bool.and_eq_true, Bool.and_eq_true]
    refine and_congr_right fun hfilled => ?_
    rw [hadmits d db row hrow hfilled, hadmits' d db row hrow hfilled]

end

open Sample in
/-- The shoppers are counted alike by IN over a copied restriction and by EXISTS over one compiled anew. -/
theorem count_shoppers_agree :
    ∃ plan plan' one two,
      (PagePlan.build catalog person ⟨true, .inQuery⟩ (shoppersBy "name") true none false).2 = .ok plan ∧
      (PagePlan.build catalog person ⟨false, .existsQuery⟩ (shoppersBy "name") true none false).2 = .ok plan' ∧
      plan.count = some one ∧ plan'.count = some two ∧
      ∃ n : Nat, one.statement.value .plain store = some (countValue n) ∧
        two.statement.value .plain store = some (countValue n) := by
  obtain ⟨plan, hplan⟩ := exists_ok_of_isOk
    (x := (PagePlan.build catalog person ⟨true, .inQuery⟩ (shoppersBy "name") true none false).2) (by decide +kernel)
  obtain ⟨plan', one, two, hplan', -, hone, htwo, hvalues⟩ := count_idioms_agree hplan ⟨false, .existsQuery⟩
  exact ⟨plan, plan', one, two, hplan, hplan', hone, htwo, hvalues .plain store⟩

end PageQuery
