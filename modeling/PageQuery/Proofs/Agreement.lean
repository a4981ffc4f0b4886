import PageQuery.Proofs.Draws
/-!
# The total counts the root rows that the rows show

The total groups by the identity alone; the rows group by what they put out and sort by as well, and join what only the
ordering asks for.  Further joins change nothing that is selected.  Further groupings do, when conditions of groups are
asked of parts of what belongs to one root row: a sort key that is not put together again behind a to-many relation
divides the rows of its root row.  Total and rows agree just as far as it comes to the same.
-/
namespace PageQuery

variable {d : Dialect} {db : Store}

/-! ## The selection of a preparation -/

def Prepared.selection (p : Prepared) : Selection :=
  ⟨p.scope.root, p.scope.label, p.scope.joinList, p.restriction.conditions, p.restriction.having⟩

namespace Prepared
variable {p : Prepared}

theorem Closed.selection (hp : p.Closed) : p.selection.Closed d db := hp.steady d db

theorem selection_relabel (f : String → String) (p : Prepared) :
    (p.relabel f).selection = p.selection.relabel f := by
  have hjoins : (p.relabel f).scope.joinList = p.scope.joinList.map (Join.relabel f) := Scope.joinList_relabel
  unfold selection
  rw [hjoins]
  rfl

theorem Under.selection_groupBy {catalog : Catalog} {root : Entity} {label : String} (hp : p.Under catalog root label) :
    p.restriction.groupBy = p.selection.groupBy := by
  rw [hp.groupBy, ← hp.root, ← hp.label]
  rfl

/-- A total over a preparation admits the root rows whose identity the preparation shows. -/
theorem admits_count_iff (hp : p.Closed) {catalog : Catalog} {root : Entity} {label : String}
    (hunder : p.Under catalog root label) (hne : countLabel ≠ label) (hlength : countLabel.length ≤ label.length)
    (caps : Capabilities) (d : Dialect) (db : Store) {row : Row}
    (hfilled : (row root.identityColumn).isSome = true) :
    (countPlanOver root caps label p.scope.joinList p.restriction p.parameters).statement.admits d db row = true ↔
      p.selection.Shows d db (d.key (row root.identityColumn)) := by
  have hroot : p.selection.root = root := hunder.root
  have hlabel : p.selection.label = label := hunder.label
  have hhidden : ¬labelsOf p.selection.label p.selection.joins countLabel :=
    hp.scope.laid.not_labels (by rw [hunder.label]; exact hne) (by rw [hunder.label]; exact hlength)
  rw [← hroot] at hfilled
  have hclosed : p.selection.Closed d db := hp.selection
  have hholds := Selection.holds_countCondition_iff hclosed hhidden caps.countIdiom hfilled
  rw [hroot, hlabel] at hholds
  rw [← hholds, ← hunder.selection_groupBy]
  rfl

end Prepared

/-! ## Exchanging root labels -/

def exchangeFirst : List Char → List Char
  | [] => []
  | c :: cs => (if c = 'e' then 's' else if c = 's' then 'e' else c) :: cs

/-- The label with `e` and `s` exchanged at its front: the labels of the rows and of the total change places. -/
def exchange (l : String) : String := String.ofList (exchangeFirst l.toList)

theorem exchangeFirst_exchangeFirst (cs : List Char) : exchangeFirst (exchangeFirst cs) = cs := by
  cases cs with
  | nil => rfl
  | cons c cs =>
    by_cases he : c = 'e'
    · subst he
      rfl
    · by_cases hs : c = 's'
      · subst hs
        rfl
      · simp [exchangeFirst, he, hs]

theorem exchange_injective : Function.Injective exchange := by
  refine Function.LeftInverse.injective (g := exchange) fun l => ?_
  unfold exchange
  rw [String.toList_ofList, exchangeFirst_exchangeFirst, String.ofList_toList]

theorem keepsBehind_exchange : KeepsBehind exchange dataLabel := by
  intro x
  have hlist : (dataLabel ++ "_" ++ x).toList = 'e' :: '_' :: x.toList := by
    rw [String.toList_append]
    rfl
  refine String.toList_inj.1 ?_
  unfold exchange
  rw [hlist, String.toList_ofList, String.toList_append]
  rfl

theorem exchange_dataLabel : exchange dataLabel = subqueryLabel := rfl

/-! ## The grouping of the rows -/

theorem eval_eq_of_groupKey_eq {es : List Expr} {x y : Tuple} (h : groupKey d db es x = groupKey d db es y) {e : Expr}
    (he : e ∈ es) : d.key (e.eval d db [x]) = d.key (e.eval d db [y]) := List.map_inj_left.1 h e he

/-! ## Rows and total -/

theorem DataParts.reads {r : Request} {p : Prepared} {data : Plan} {s : Scope} {orders : List OrderTerm}
    (hparts : DataParts r p data s orders) {catalog : Catalog} {root : Entity}
    (hunder : p.Under catalog root dataLabel) : ∃ more, data.statement.Reads (p.selection.join more) := by
  obtain ⟨more, hmore⟩ := hparts.grows.joinList
  exact ⟨more, hparts.table.trans (congrArg Entity.table hparts.grows.root), hparts.label.trans hunder.label.symm,
    hparts.joins.trans hmore.symm, hparts.conditions, hparts.having⟩

theorem DataParts.ident_of_groupKey {r : Request} {p : Prepared} {data : Plan} {s : Scope} {orders : List OrderTerm}
    (hparts : DataParts r p data s orders) :
    data.statement.having = [] ∨ data.statement.groupBy.isEmpty = false ∧ ∀ x y,
      groupKey d db data.statement.groupBy x = groupKey d db data.statement.groupBy y →
        p.selection.ident d x = p.selection.ident d y := by
  by_cases hhaving : data.statement.having = []
  · exact .inl hhaving
  · have hmem : Expr.col p.selection.label p.selection.root.identityColumn ∈ data.statement.groupBy := by
      rw [hparts.groupBy, hparts.grows.identity]
      exact mem_dataGrouping (by rw [← hparts.having]; exact hhaving)
    refine .inr ⟨List.isEmpty_eq_false_iff.2 (List.ne_nil_of_mem hmem), fun x y hkey => ?_⟩
    have hid := eval_eq_of_groupKey_eq hkey hmem
    simp only [Expr.col, Expr.eval, List.headD_cons] at hid
    exact hid

section
variable {r : Request} {p : Prepared} {data : Plan} {s : Scope} {orders : List OrderTerm}
  (hparts : DataParts r p data s orders) {catalog : Catalog} {root : Entity} (hunder : p.Under catalog root dataLabel)
include hparts hunder

/-- **The rows of a build are drawn of the root rows that pass the conditions of groups in some part.** -/
theorem DataParts.draws_iff (hdb : db.Identifies d root) {row : Row} (hrow : row ∈ db.rows root.table) :
    data.statement.draws d db root.identityColumn (row root.identityColumn) = true ↔
      ∃ x ∈ data.statement.keptOf d db root.identityColumn (row root.identityColumn),
        holdsAll d db data.statement.having
          ((data.statement.keptOf d db root.identityColumn (row root.identityColumn)).filter
            fun y => decide (groupKey d db data.statement.groupBy y =
              groupKey d db data.statement.groupBy x)) = true := by
  obtain ⟨more, hreads⟩ := hparts.reads hunder
  have hroot : (p.selection.join more).root = root := hunder.root
  rw [← hroot] at hdb hrow ⊢
  rw [hreads.keptOf_eq hdb hrow, hreads.having]
  refine hreads.draws_iff hdb ?_ hrow
  refine hparts.ident_of_groupKey.imp_right fun hkeys => ⟨hkeys.1, fun x _ y _ => hkeys.2 x y⟩

theorem DataParts.selects_iff (hclosed : p.Closed) (hdb : db.Identifies d root) {row : Row}
    (hrow : row ∈ db.rows root.table) :
    p.selection.selects d db row = true ↔
      data.statement.keptOf d db root.identityColumn (row root.identityColumn) ≠ [] ∧
        holdsAll d db data.statement.having
          (data.statement.keptOf d db root.identityColumn (row root.identityColumn)) = true := by
  obtain ⟨more, hreads⟩ := hparts.reads hunder
  have hroot : (p.selection.join more).root = root := hunder.root
  rw [← hroot] at hdb hrow ⊢
  rw [hreads.keptOf_eq hdb hrow, hreads.having, ← Selection.selects_join hclosed.selection more]
  exact Selection.selects_iff row

end

/-! ## The total -/

theorem prepare_again {catalog : Catalog} {root : Entity} {r : Request} {recipe : Option Recipe} {p : Prepared}
    (hp : (prepare catalog root r recipe dataLabel).2 = .ok p) :
    (prepare catalog root r recipe subqueryLabel).2 = .ok (p.relabel exchange) :=
  prepare_moved keepsBehind_exchange exchange_dataLabel hp

theorem exists_countPlan {catalog : Catalog} {root : Entity} {r : Request} {recipe : Option Recipe} {p : Prepared}
    (hp : (prepare catalog root r recipe dataLabel).2 = .ok p) (caps : Capabilities) (data : Plan) :
    ∃ count, (countPlan catalog root caps r recipe data p).2 = .ok count := by
  unfold countPlan
  split
  · exact ⟨_, rfl⟩
  · split
    · exact ⟨_, rfl⟩
    · simp only [prepare_again hp]
      exact ⟨_, rfl⟩

theorem exists_build_of_data {catalog : Catalog} {root : Entity} {r : Request} {recipe : Option Recipe} {p : Prepared}
    {data : Plan} (hp : (prepare catalog root r recipe dataLabel).2 = .ok p) (hdata : dataPlan r p = .ok data)
    (caps : Capabilities) (wantCount : Bool) {requireProjection : Bool}
    (hrequired : (requireProjection && p.projection.isNone) = false) :
    ∃ plan, (PagePlan.build catalog root caps r wantCount recipe requireProjection).2 = .ok plan ∧
      plan.data = data := by
  obtain ⟨count, hcount⟩ := exists_countPlan hp caps data
  unfold PagePlan.build PagePlan.buildFor
  simp only [Recipe.map_always]
  rcases hprepare : prepare catalog root r recipe dataLabel with ⟨journal, e | p'⟩
  · rw [hprepare] at hp
    cases hp
  · rw [hprepare] at hp
    cases hp
    simp only [hrequired, Bool.false_eq_true, if_false, hdata]
    cases wantCount with
    | false => exact ⟨_, rfl, rfl⟩
    | true =>
      simp only [hcount, if_true]
      exact ⟨_, rfl, rfl⟩

/-- **The total of a build admits the root rows whose identity its preparation shows**, however it was put together:
over everything, over the restriction copied, or over the request prepared once more. -/
theorem admits_countPlan_iff {catalog : Catalog} {root : Entity} {caps : Capabilities} {r : Request}
    {recipe : Option Recipe} {p : Prepared} (hprepare : (prepare catalog root r recipe dataLabel).2 = .ok p)
    {data : Plan} {s : Scope} {orders : List OrderTerm} (hparts : DataParts r p data s orders) {count : Plan}
    (hcount : (countPlan catalog root caps r recipe data p).2 = .ok count) :
    (∃ conditions, count.statement = countStatement root conditions) ∧
      ∀ (d : Dialect) (db : Store), ∀ row ∈ db.rows root.table, (row root.identityColumn).isSome = true →
        (count.statement.admits d db row = true ↔ p.selection.Shows d db (d.key (row root.identityColumn))) := by
  have hunder := under_prepare hprepare
  have hclosed := closed_prepare hprepare
  rcases countPlan_ok hprepare hcount with ⟨hempty, hstatement, -⟩ | ⟨-, hcopy, rfl⟩ | ⟨-, -, hagain⟩
  · obtain ⟨hconditions, hhaving⟩ := hunder.isEmpty_iff.1 hempty
    refine ⟨⟨[], hstatement⟩, fun d db row hrow _ => ?_⟩
    have hroot : p.selection.root = root := hunder.root
    rw [← hroot] at hrow ⊢
    rw [hstatement]
    exact iff_of_true rfl (Selection.shows_of_free hconditions hhaving hrow)
  · -- the total repeats the restriction without joins only where the rows, ordering included, have none
    have hnone : s.joinList = [] := by
      rw [Bool.and_eq_true, hparts.joined] at hcopy
      simpa [Scope.hasJoins, Scope.joinList] using hcopy.2
    have hjoins : p.scope.joinList = [] := List.prefix_nil.1 (hnone ▸ hparts.grows.joinList)
    refine ⟨⟨_, rfl⟩, fun d db row _ hfilled => ?_⟩
    have hadmits := Prepared.admits_count_iff hclosed hunder (by decide) (by decide) caps d db hfilled
    rwa [hjoins] at hadmits
  · obtain ⟨hprepared, rfl⟩ := hagain exchange keepsBehind_exchange exchange_dataLabel
    have hagain := closed_prepare hprepared
    refine ⟨⟨_, rfl⟩, fun d db row _ hfilled => ?_⟩
    have hadmits := Prepared.admits_count_iff hagain (under_prepare hprepared) (by decide) (by decide) caps d db hfilled
    have hrelabel : (p.relabel exchange).selection.Closed d db := hagain.selection
    rw [Prepared.selection_relabel] at hadmits hrelabel
    exact hadmits.trans (Selection.shows_relabel exchange_injective hclosed.selection hrelabel hfilled)

/-- Where identities tell root rows apart, the total admits the root rows that the preparation selects. -/
theorem admits_countPlan {catalog : Catalog} {root : Entity} {caps : Capabilities} {r : Request}
    {recipe : Option Recipe} {p : Prepared} (hprepare : (prepare catalog root r recipe dataLabel).2 = .ok p)
    {data : Plan} {s : Scope} {orders : List OrderTerm} (hparts : DataParts r p data s orders) {count : Plan}
    (hcount : (countPlan catalog root caps r recipe data p).2 = .ok count) :
    (∃ conditions, count.statement = countStatement root conditions) ∧
      ∀ (d : Dialect) (db : Store), db.Identifies d root → ∀ row ∈ db.rows root.table,
        count.statement.admits d db row = p.selection.selects d db row := by
  obtain ⟨hstatement, hadmits⟩ := admits_countPlan_iff hprepare hparts hcount
  have hroot : p.selection.root = root := (under_prepare hprepare).root
  refine ⟨hstatement, fun d db hdb row hrow => ?_⟩
  rw [Bool.eq_iff_iff, hadmits d db row hrow (hdb.filled row hrow)]
  rw [← hroot] at hdb hrow ⊢
  exact Selection.shows_iff hdb hrow

/-- **The total is the number of root rows that the rows show just as far as the conditions of groups ask the same of
the parts of a root row's joined rows as of all of them.**  The total counts the root rows that it admits; those are the
root rows drawn exactly under that condition, and then their number is the total. -/
theorem count_value_eq_rows_drawn {catalog : Catalog} {root : Entity} {caps : Capabilities} {r : Request}
    {recipe : Option Recipe} {requireProjection : Bool} {plan : PagePlan}
    (h : (PagePlan.build catalog root caps r true recipe requireProjection).2 = .ok plan)
    (hdb : db.Identifies d root) :
    ∃ count, plan.count = some count ∧
      count.statement.value d db = some (countValue ((db.rows root.table).countP (count.statement.admits d db))) ∧
      (plan.data.statement.AsksWhole d db root.identityColumn ↔ ∀ row ∈ db.rows root.table,
        plan.data.statement.draws d db root.identityColumn (row root.identityColumn) =
          count.statement.admits d db row) ∧
      (plan.data.statement.AsksWhole d db root.identityColumn → count.statement.value d db =
        some (countValue ((db.rows root.table).countP fun row =>
          plan.data.statement.draws d db root.identityColumn (row root.identityColumn)))) := by
  obtain ⟨p, hprepare, hdata, hcount⟩ := build_ok h
  obtain ⟨count, hsome, hcount⟩ := hcount rfl
  obtain ⟨s, orders, hparts⟩ := dataPlan_ok hdata
  have hclosed := closed_prepare hprepare
  have hunder := under_prepare hprepare
  obtain ⟨⟨conditions, hstatement⟩, hadmits⟩ := admits_countPlan hprepare hparts hcount
  have hvalue : count.statement.value d db =
      some (countValue ((db.rows root.table).countP (count.statement.admits d db))) := by
    rw [hstatement]
    exact value_countStatement hdb conditions
  have htable : plan.data.statement.table = root.table := by
    rw [hparts.table, hparts.grows.root, hunder.root]
  have hwhole : plan.data.statement.AsksWhole d db root.identityColumn ↔ ∀ row ∈ db.rows root.table,
      plan.data.statement.draws d db root.identityColumn (row root.identityColumn) =
        count.statement.admits d db row := by
    unfold Statement.AsksWhole
    rw [htable]
    refine forall₂_congr fun row hrow => ?_
    rw [hadmits d db hdb row hrow, ← hparts.draws_iff hunder hdb hrow, ← hparts.selects_iff hunder hclosed hdb hrow]
    exact Bool.eq_iff_iff.symm
  refine ⟨count, hsome, hvalue, hwhole, fun hasks => ?_⟩
  have hcounts : (db.rows root.table).countP (fun row =>
      plan.data.statement.draws d db root.identityColumn (row root.identityColumn)) =
        (db.rows root.table).countP (count.statement.admits d db) :=
    List.countP_congr fun row hrow => by rw [hwhole.1 hasks row hrow]
  rw [hvalue, hcounts]

open Sample in
/-- By name, each shopper is shown and counted. -/
theorem count_shoppers_by_name :
    ∃ plan count, (PagePlan.build catalog person Backend.postgres.capabilities (shoppersBy "name") true none false).2 =
        .ok plan ∧ plan.count = some count ∧ count.statement.value .plain store =
          some (countValue ((store.rows "persons").countP fun row =>
            plan.data.statement.draws .plain store "id" (row "id"))) := by
  obtain ⟨plan, hplan, hasks⟩ := exists_ok
    (P := fun plan : PagePlan => plan.data.statement.AsksWhole .plain store person.identityColumn)
    (x := (PagePlan.build catalog person Backend.postgres.capabilities (shoppersBy "name") true none false).2)
    (by decide +kernel)
  have hdb : store.Identifies .plain person := by decide +kernel
  obtain ⟨count, hcount, -, -, hvalue⟩ := count_value_eq_rows_drawn hplan hdb
  exact ⟨plan, count, hplan, hcount, hvalue hasks⟩

open Sample in
/-- By the amounts of their orders, a shopper is counted and not shown: neither of Ada's orders has both items. -/
theorem count_shoppers_by_amount :
    store.Identifies .plain person ∧
    ∃ plan, (PagePlan.build catalog person Backend.postgres.capabilities (shoppersBy "orders.amount") true none
        false).2 = .ok plan ∧
      ∃ count ∈ plan.count, count.statement.value .plain store = some (countValue 1) ∧
        (store.rows "persons").countP (fun row => plan.data.statement.draws .plain store "id" (row "id")) = 0 :=
  ⟨by decide +kernel, exists_ok (by decide +kernel)⟩

end PageQuery
