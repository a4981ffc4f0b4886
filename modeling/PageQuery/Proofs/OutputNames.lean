import PageQuery.Proofs.Dangling
import PageQuery.Proofs.Described
import PageQuery.Proofs.Operands
import PageQuery.Proofs.PerIdentity
import PageQuery.Proofs.WellFormed
/-!
# The names of the output

A row comes back with its cells under names.  The columns have different ones: attributes are declared under their
names and a field that is named again takes the place of the first.  Where rows are merged, sort keys that no column
shows are put out besides, under numbers of their own; nothing keeps a column from having such a name, and that is all
there is against reading each column under its name.
-/
namespace PageQuery

/-! ## The names of columns -/

theorem Projection.names_put (fields : Projection) (name : String) (t : Term) :
    (fields.put name t).map Prod.fst =
      if name ∈ fields.map Prod.fst then fields.map Prod.fst else fields.map Prod.fst ++ [name] := by
  unfold put
  by_cases h : name ∈ fields.map Prod.fst
  · have hany : fields.any (fun f => f.1 == name) = true := by
      obtain ⟨f, hf, rfl⟩ := List.mem_map.1 h
      exact List.any_eq_true.2 ⟨f, hf, beq_self_eq_true f.1⟩
    rw [if_pos h, if_pos hany, List.map_map]
    refine List.map_congr_left fun f _ => ?_
    by_cases hf : f.1 = name
    · simp [hf]
    · simp [hf]
  · have hnone : ¬fields.any (fun f => f.1 == name) = true := fun hany => by
      obtain ⟨f, hf, heq⟩ := List.any_eq_true.1 hany
      exact h (List.mem_map.2 ⟨f, hf, beq_iff_eq.1 heq⟩)
    rw [if_neg h, if_neg hnone, List.map_append]
    rfl

theorem Projection.nodup_put {fields : Projection} (h : (fields.map Prod.fst).Nodup) (name : String) (t : Term) :
    ((fields.put name t).map Prod.fst).Nodup := by
  rw [names_put]
  split
  · exact h
  · next hnew => exact List.nodup_append.2 ⟨h, List.nodup_singleton name, fun x hx y hy hxy =>
      hnew (by rwa [← List.mem_singleton.1 hy, ← hxy])⟩

namespace RunState

theorem nodup_step {st st' : RunState} {x : Step} (h : st.step x = (st', none))
    (hst : (st.fields.map Prod.fst).Nodup) : (st'.fields.map Prod.fst).Nodup := by
  rcases fields_step h with ⟨-, hfields⟩ | ⟨name, t, -, hfields, -⟩
  · rwa [hfields]
  · rw [hfields]
    exact Projection.nodup_put hst name t

theorem nodup_steps : ∀ {xs : List Step} {st st' : RunState}, st.steps xs = (st', none) →
    (st.fields.map Prod.fst).Nodup → (st'.fields.map Prod.fst).Nodup
  | [], _, _, h, hst => by
    cases h
    exact hst
  | x :: xs, st, st', h, hst => by
    simp only [steps] at h
    rcases hx : st.step x with ⟨st₁, _ | e⟩
    · rw [hx] at h
      exact nodup_steps h (nodup_step hx hst)
    · rw [hx] at h
      cases h

end RunState

theorem Entity.nodup_columns {e : Entity} (h : (e.attributes.map Attribute.name).Nodup) :
    (e.columns.map fun c => c.1.name).Nodup := by
  have hsub : (e.columns.map Prod.fst).Sublist e.attributes := by
    unfold columns
    induction e.attributes with
    | nil => exact .slnil
    | cons a as ih =>
      rw [List.filterMap_cons]
      cases a.storage with
      | column c => exact ih.cons_cons a
      | toOne | toMany | collection => exact ih.cons a
  have hnames := h.sublist (hsub.map Attribute.name)
  rwa [List.map_map] at hnames

theorem nodup_declaredOutput (catalog : Catalog) {root : Entity} (hroot : root.Described) (recipe : Option Recipe)
    {s : Scope} (hs : s.root = root) (hrun : ∀ x, recipe = some x → (x.ran catalog root).2 = none) :
    (((declaredOutput s (projectionOf catalog root recipe)).map Prod.snd).map OutputColumn.name).Nodup := by
  have hwhole : (((declaredOutput s none).map Prod.snd).map OutputColumn.name).Nodup := by
    simp only [declaredOutput, List.map_map, Function.comp_def, hs]
    exact Entity.nodup_columns hroot.nodup
  cases recipe with
  | none => exact hwhole
  | some x =>
    have hfields : ((x.ran catalog root).1.fields.map Prod.fst).Nodup :=
      RunState.nodup_steps (Prod.ext rfl (hrun x rfl)) List.nodup_nil
    simp only [projectionOf, Option.bind_some, Recipe.projection?]
    split
    · exact hwhole
    · simpa only [declaredOutput, List.map_map, Function.comp_def] using hfields

/-! ## The names of sort keys -/

/-- The name of a sort key that is put out besides the columns, by its place in the ordering. -/
def sortKeyName (i : Nat) : String := "order_" ++ toString i

theorem sortKeyName_inj {i j : Nat} (h : sortKeyName i = sortKeyName j) : i = j := by
  have hstem : "order_" = "order" ++ "_" := by decide
  unfold sortKeyName at h
  rw [hstem] at h
  exact numbered_inj h

theorem mem_names_extraItems {selected : List Selected} {name : Option String} :
    ∀ (n : Nat) (orders : List OrderTerm), name ∈ (extraItems selected n orders).map Item.name ↔
      ∃ i o, orders[i]? = some o ∧ (∀ x ∈ selected, x.expr ≠ o.term.expr) ∧ name = some (sortKeyName (n + i))
  | n, [] => by simp [extraItems]
  | n, o :: os => by
    have hrest : (∃ i o', (o :: os)[i]? = some o' ∧ (∀ x ∈ selected, x.expr ≠ o'.term.expr) ∧
        name = some (sortKeyName (n + i))) ↔
        ((∀ x ∈ selected, x.expr ≠ o.term.expr) ∧ name = some (sortKeyName n)) ∨
          name ∈ (extraItems selected (n + 1) os).map Item.name := by
      rw [mem_names_extraItems (n + 1) os]
      constructor
      · rintro ⟨i, o', hi, h⟩
        cases i with
        | zero =>
          cases hi
          exact .inl h
        | succ i => exact .inr ⟨i, o', hi, h.1, by rw [h.2, Nat.add_right_comm, Nat.add_assoc]⟩
      · rintro (h | ⟨i, o', hi, h⟩)
        · exact ⟨0, o, rfl, h⟩
        · exact ⟨i + 1, o', hi, h.1, by rw [h.2, Nat.add_right_comm, Nat.add_assoc]⟩
    rw [hrest]
    by_cases hsel : selected.any (fun x => decide (x.expr = o.term.expr)) = true
    · rw [extraItems, if_pos hsel]
      obtain ⟨x, hx, hxo⟩ := List.any_eq_true.1 hsel
      exact ⟨.inr, fun h => h.resolve_left fun hnone => hnone.1 x hx (of_decide_eq_true hxo)⟩
    · have hnone : ∀ x ∈ selected, x.expr ≠ o.term.expr := fun x hx hxo =>
        hsel (List.any_eq_true.2 ⟨x, hx, decide_eq_true hxo⟩)
      rw [extraItems, if_neg hsel, List.map_cons, List.mem_cons]
      exact or_congr_left ⟨fun h => ⟨hnone, h⟩, fun h => h.2⟩

theorem nodup_extraItems (selected : List Selected) : ∀ (n : Nat) (orders : List OrderTerm),
    ((extraItems selected n orders).map Item.name).Nodup
  | _, [] => List.nodup_nil
  | n, o :: os => by
    have hrest := nodup_extraItems selected (n + 1) os
    rw [extraItems]
    split
    · exact hrest
    · refine List.nodup_cons.2 ⟨fun hmem => ?_, hrest⟩
      obtain ⟨i, -, -, -, hname⟩ := (mem_names_extraItems (n + 1) os).1 hmem
      have := sortKeyName_inj (Option.some.inj hname)
      omega

/-! ## The names of a statement -/

/-- A sort key is put out under a name: rows are merged, and no column shows it. -/
def Plan.PutsOutKey (data : Plan) (name : String) : Prop :=
  data.statement.distinct = true ∧ ∃ i k, data.statement.orderBy[i]? = some k ∧
    k.expr ∉ (data.statement.items.take data.columns.length).map Item.expr ∧ name = sortKeyName i

/-- Of two lists without repetitions, the elements of the first stand at their own places alone in both together just
if none is repeated there. -/
theorem nodup_append_iff_places {α : Type} {as bs : List α} (ha : as.Nodup) (hb : bs.Nodup) :
    (as ++ bs).Nodup ↔ ∀ (i : Nat) a, as[i]? = some a → ∀ j : Nat, (as ++ bs)[j]? = some a ↔ j = i := by
  constructor
  · intro h i a hi j
    have hlt : i < as.length := (List.getElem?_eq_some_iff.1 hi).1
    have hboth : (as ++ bs)[i]? = some a := by rw [List.getElem?_append_left hlt, hi]
    constructor
    · intro hj
      have hjlt : j < (as ++ bs).length := (List.getElem?_eq_some_iff.1 hj).1
      exact (List.getElem?_inj hjlt h).1 (hj.trans hboth.symm)
    · rintro rfl
      exact hboth
  · intro h
    refine List.nodup_append.2 ⟨ha, hb, fun a hmem b hb' hab => ?_⟩
    subst hab
    obtain ⟨i, hi⟩ := List.mem_iff_getElem?.1 hmem
    obtain ⟨j, hj⟩ := List.mem_iff_getElem?.1 hb'
    have hlt : i < as.length := (List.getElem?_eq_some_iff.1 hi).1
    have hplace : (as ++ bs)[as.length + j]? = some a := by
      rw [List.getElem?_append_right (by omega), Nat.add_sub_cancel_left, hj]
    have hsame := (h i a hi (as.length + j)).1 hplace
    omega

section
variable {r : Request} {p : Prepared} {data : Plan} {s : Scope} {orders : List OrderTerm}

theorem DataParts.names (hparts : DataParts r p data s orders) (h : dataPlan r p = .ok data) :
    ∃ keys, data.statement.items.map Item.name = (data.columns.map fun c => some c.name) ++ keys ∧ keys.Nodup ∧
      ∀ name, some name ∈ keys ↔ data.PutsOutKey name := by
  obtain ⟨hprofile, hcolumns⟩ := hparts.metadata h
  obtain ⟨hshown, hdeclared⟩ := outputOf_declared p.scope p.projection
  obtain ⟨extra, hitems, hextra⟩ := hparts.items
  have hlength : data.columns.length = (outputOf p.scope p.projection).1.length := by
    rw [hcolumns, hdeclared, hshown, List.length_map, List.length_map]
  refine ⟨extra.map Item.name, ?_, ?_, fun name => ?_⟩
  · rw [hitems, List.map_append, hcolumns, hdeclared, hshown, List.map_map, List.map_map]
    rfl
  · rw [hextra]
    split
    · exact nodup_extraItems _ 0 orders
    · exact List.nodup_nil
  · unfold Plan.PutsOutKey
    rw [hitems, hlength, List.take_left, ← outputOf_exprs, hparts.orderBy, hextra]
    split
    · next hmerged =>
      rw [mem_names_extraItems]
      simp only [hmerged, true_and, List.getElem?_map, Option.map_eq_some_iff, Nat.zero_add, Option.some_inj,
        List.mem_map, not_exists, not_and]
      constructor
      · rintro ⟨i, o, hi, hnone, hname⟩
        exact ⟨i, _, ⟨o, hi, rfl⟩, hnone, hname⟩
      · rintro ⟨i, _, ⟨o, hi, rfl⟩, hnone, hname⟩
        exact ⟨i, o, hi, hnone, hname⟩
    · next hplain => simp [hplain]

end

/-- **Names of the output are different** just if no sort key is put out under the name of a column, and just if each
column's name stands in its own place alone, so that a row read by names has its cell there. -/
theorem output_names_apart_iff {catalog : Catalog} {root : Entity} (hroot : root.Described) (caps : Capabilities)
    (r : Request) (wantCount : Bool) (recipe : Option Recipe) (requireProjection : Bool) {plan : PagePlan}
    (h : (PagePlan.build catalog root caps r wantCount recipe requireProjection).2 = .ok plan) :
    let names := plan.data.statement.items.map Item.name
    (names.Nodup ↔ ∀ c ∈ plan.data.columns, ¬plan.data.PutsOutKey c.name) ∧
      (names.Nodup ↔ ∀ (i : Nat) c, plan.data.columns[i]? = some c →
        ∀ j : Nat, names[j]? = some (some c.name) ↔ j = i) := by
  intro names
  obtain ⟨p, hprepare, hdata, -⟩ := build_ok h
  obtain ⟨s, orders, hparts⟩ := dataPlan_ok hdata
  obtain ⟨keys, hnames, hkeys, hmem⟩ := hparts.names hdata
  have hcolumns : (plan.data.columns.map fun c => some c.name).Nodup := by
    obtain ⟨hprofile, hdeclared⟩ := hparts.metadata hdata
    obtain ⟨hprojection, hgrows⟩ := prepared_scope hprepare
    rw [hdeclared, (outputOf_declared p.scope p.projection).2, hprojection]
    have hapart := nodup_declaredOutput catalog hroot recipe (under_prepare hprepare).root fun x hx => by
      subst hx
      rcases prepare_ok hprepare with ⟨hnone, -⟩ | ⟨y, st, hy, hrun, -⟩
      · cases hnone
      · cases hy
        exact congrArg Prod.snd hrun
    have hsome := hapart.map (Option.some_injective String)
    rwa [List.map_map] at hsome
  have hplaces := nodup_append_iff_places hcolumns hkeys
  rw [← hnames] at hplaces
  constructor
  · show names.Nodup ↔ _
    rw [show names = _ from hnames, List.nodup_append]
    constructor
    · rintro ⟨-, -, hne⟩ c hc hkey
      exact hne _ (List.mem_map_of_mem hc) _ ((hmem c.name).2 hkey) rfl
    · intro hne
      refine ⟨hcolumns, hkeys, fun x hx y hy hxy => ?_⟩
      obtain ⟨c, hc, rfl⟩ := List.mem_map.1 hx
      exact hne c hc ((hmem c.name).1 (hxy ▸ hy))
  · refine hplaces.trans ⟨fun hat i c hi => ?_, fun hat i x hi => ?_⟩
    · exact hat i (some c.name) (by rw [List.getElem?_map, hi, Option.map_some])
    · rw [List.getElem?_map, Option.map_eq_some_iff] at hi
      obtain ⟨c, hi, rfl⟩ := hi
      exact hat i c hi

namespace Sample

def queued : Entity :=
  .ofDeclarations "person" "persons" [.scalar "order_0" .integer, .toMany "orders" "order" "person_id"]

end Sample

open Sample in
/-- By the amounts of their orders, persons are merged and the amount has a name of its own. -/
theorem persons_by_amount_named_apart :
    person.Described ∧ ∃ plan, (PagePlan.build catalog person Backend.postgres.capabilities
        (personsBy "orders.amount") false none false).2 = .ok plan ∧
      plan.data.columns.length < plan.data.statement.items.length ∧
      (plan.data.statement.items.map Item.name).Nodup := by
  have hperson : person.Described := ⟨_, _, _, rfl⟩
  obtain ⟨plan, hplan, hcolumns, hlonger⟩ := exists_ok
    (P := fun plan : PagePlan => plan.data.columns.map OutputColumn.name = ["id", "name"] ∧
      plan.data.columns.length < plan.data.statement.items.length)
    (x := (PagePlan.build catalog person Backend.postgres.capabilities (personsBy "orders.amount") false none false).2)
    (by decide +kernel)
  refine ⟨hperson, plan, hplan, hlonger, ?_⟩
  refine (output_names_apart_iff hperson _ _ _ _ _ hplan).1.2 fun c hc hkey => ?_
  obtain ⟨-, i, k, -, -, hname⟩ := hkey
  have hmem : c.name ∈ ["id", "name"] := hcolumns ▸ List.mem_map_of_mem hc
  rw [hname] at hmem
  have hstart : (sortKeyName i).toList.head? = some 'o' := by
    unfold sortKeyName
    rw [String.toList_append]
    rfl
  rcases List.mem_pair.1 hmem with h | h <;> rw [h] at hstart <;> revert hstart <;> decide

open Sample in
/-- An attribute of the name that the first sort key gets is put out beside it under one name. -/
theorem number_named_as_amount :
    queued.Described ∧ ∃ plan, (PagePlan.build (.ofList [queued, order]) queued Backend.postgres.capabilities
        (personsBy "orders.amount") false none false).2 = .ok plan ∧
      plan.data.statement.items.map Item.name = [some "id", some "order_0", some "order_0"] ∧
      ¬(plan.data.statement.items.map Item.name).Nodup := by
  obtain ⟨plan, hplan, hnames⟩ := exists_ok
    (P := fun plan : PagePlan => plan.data.statement.items.map Item.name = [some "id", some "order_0", some "order_0"])
    (x := (PagePlan.build (.ofList [queued, order]) queued Backend.postgres.capabilities (personsBy "orders.amount")
      false none false).2)
    (by decide +kernel)
  refine ⟨⟨_, _, _, rfl⟩, plan, hplan, hnames, ?_⟩
  rw [hnames]
  decide

end PageQuery
