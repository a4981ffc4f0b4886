import PageQuery.Proofs.PathsDecide
/-!
# A plan describes its statement

The profile of a plan and its columns are made beside the statement, some before the ordering is resolved and some
after.  They tell of the statement that is run: nothing that is joined, grouped or put out late escapes them.
-/
namespace PageQuery

def Statement.profile (q : Statement) : Profile :=
  { ordered := !q.orderBy.isEmpty
    distinct := q.distinct
    limit := q.limit
    offset := q.offset
    joined := !q.joins.isEmpty
    groupings := q.groupBy.length
    restrictsGroups := !q.having.isEmpty }

/-- What is put out and as which column: each field of the projection under its name with its type, or each attribute
of the root that is kept in a column. -/
def declaredOutput (s : Scope) : Option Projection → List (Expr × OutputColumn)
  | none => s.root.columns.map fun c => (s.rootColumn c.2, ⟨c.1.name, c.1.type⟩)
  | some fields => fields.map fun f => (f.2.expr, ⟨f.1, f.2.type⟩)

def Scope.SortsBy (s : Scope) (o : Ordering) (k : SortKey) : Prop :=
  ∃ t, (s.readTarget o.path).2 = .ok t ∧ k = ⟨(collapse t o.ascending).expr, o.ascending⟩

/-- The plan of the rows tells of its statement: what `s` puts out for a request and a projection, and how it sorts. -/
structure Plan.Describes (s : Scope) (projection : Option Projection) (r : Request) (data : Plan) : Prop where
  profile : data.profile = data.statement.profile
  columns : data.columns = (declaredOutput s projection).map Prod.snd
  /-- The output begins with the columns, each under its name. -/
  shown : ((declaredOutput s projection).map fun x => (⟨x.1, some x.2.name⟩ : Item)) <+: data.statement.items
  /-- What else is put out are sort keys, where rows are merged. -/
  extra : ∀ i ∈ data.statement.items.drop data.columns.length,
    data.statement.distinct = true ∧ i.expr ∈ data.statement.orderBy.map SortKey.expr
  /-- The ordering of the request is followed entry by entry, but for a single row, which has none. -/
  ordering : if r.limit = some 1 then data.statement.orderBy = []
    else List.Forall₂ s.SortsBy r.ordering data.statement.orderBy

section
variable {r : Request} {p : Prepared} {data : Plan} {s : Scope} {orders : List OrderTerm}

theorem DataParts.metadata (hparts : DataParts r p data s orders) (h : dataPlan r p = .ok data) :
    data.profile = data.statement.profile ∧ data.columns = (outputOf p.scope p.projection).2.1 := by
  unfold dataPlan at h
  rw [hparts.ordering] at h
  cases h
  refine ⟨?_, rfl⟩
  simp [Statement.profile, Scope.hasJoins, Scope.joinList]

theorem outputOf_declared (s : Scope) (projection : Option Projection) :
    (outputOf s projection).1 = ((declaredOutput s projection).map fun x => ⟨x.1, some x.2.name⟩) ∧
      (outputOf s projection).2.1 = (declaredOutput s projection).map Prod.snd := by
  cases projection <;> simp [outputOf, declaredOutput, Function.comp_def]

theorem DataParts.sortsBy (hparts : DataParts r p data s orders) :
    if r.limit = some 1 then data.statement.orderBy = []
      else List.Forall₂ p.scope.SortsBy r.ordering data.statement.orderBy := by
  have hordering := hparts.ordering
  rw [hparts.orderBy]
  split
  · next hlimit =>
    unfold orderTerms at hordering
    rw [if_pos hlimit] at hordering
    obtain ⟨u, -, rfl⟩ := map_ok (congrArg Prod.snd hordering)
    rfl
  · next hlimit =>
    rw [List.forall₂_map_right_iff]
    exact orderTerms_forall₂ (I := fun s => s.base = p.scope.base ∧ s.fields = p.scope.fields)
      (P := fun _ o x => p.scope.SortsBy o ⟨x.term.expr, x.ascending⟩)
      (fun o _ s hs => by
        have hgrows := Scope.grows_readTarget s o.path
        exact ⟨hgrows.base.trans hs.1, hgrows.fields.trans hs.2⟩)
      (fun _ hx => hx)
      (fun o _ s t hs ht => ⟨t, (Scope.resolveMarked_congr hs.1 hs.2 sharedPath o.path).symm.trans ht, rfl⟩)
      ⟨rfl, rfl⟩ hlimit hordering

end

theorem describes_dataPlan {r : Request} {p : Prepared} {data : Plan} (h : dataPlan r p = .ok data) :
    data.Describes p.scope p.projection r := by
  obtain ⟨s, orders, hparts⟩ := dataPlan_ok h
  obtain ⟨hprofile, hcolumns⟩ := hparts.metadata h
  obtain ⟨hshown, hdeclared⟩ := outputOf_declared p.scope p.projection
  obtain ⟨extra, hitems, hextra⟩ := hparts.items
  rw [hdeclared] at hcolumns
  rw [hshown] at hitems
  refine ⟨hprofile, hcolumns, hitems ▸ List.prefix_append _ _, fun i hi => ?_, hparts.sortsBy⟩
  rw [hitems, hcolumns, List.length_map, List.drop_left' (by simp), hextra] at hi
  split at hi
  · next hmerged =>
    obtain ⟨o, ho, hexpr, -⟩ := (mem_extraItems 0 orders).1 (List.mem_map_of_mem hi)
    refine ⟨hmerged, ?_⟩
    rw [hparts.orderBy, List.map_map]
    exact List.mem_map.2 ⟨o, ho, hexpr⟩
  · cases hi

theorem Plan.Describes.of_grows {s s' : Scope} {projection : Option Projection} {r : Request} {data : Plan}
    (hgrows : s.Grows s') (h : data.Describes s' projection r) : data.Describes s projection r := by
  have houtput : declaredOutput s' projection = declaredOutput s projection := by
    cases projection with
    | none => simp only [declaredOutput, Scope.rootColumn, hgrows.root, hgrows.label]
    | some fields => rfl
  have hsorts : s'.SortsBy = s.SortsBy := by
    funext o k
    unfold Scope.SortsBy Scope.readTarget
    rw [Scope.resolveMarked_congr hgrows.base hgrows.fields sharedPath o.path]
  obtain ⟨hprofile, hcolumns, hshown, hextra, hordering⟩ := h
  rw [houtput] at hcolumns hshown
  rw [hsorts] at hordering
  exact ⟨hprofile, hcolumns, hshown, hextra, hordering⟩

/-- **A plan describes its statement.**  Whatever a preparation holds, the plan of its rows tells of its own statement;
and after a build it tells what the recipe declared and what the request ordered by. -/
theorem plan_describes_statement (r : Request) :
    (∀ p data, dataPlan r p = .ok data → data.Describes p.scope p.projection r) ∧
      ∀ catalog root caps wantCount recipe requireProjection plan,
        (PagePlan.build catalog root caps r wantCount recipe requireProjection).2 = .ok plan →
        plan.data.Describes (requestScope catalog root recipe) (projectionOf catalog root recipe) r := by
  refine ⟨fun p data h => describes_dataPlan h, fun catalog root caps wantCount recipe requireProjection plan h => ?_⟩
  obtain ⟨p, hprepare, hdata, -⟩ := build_ok h
  obtain ⟨hprojection, hgrows⟩ := prepared_scope hprepare
  have hdescribes := describes_dataPlan hdata
  rw [hprojection] at hdescribes
  exact hdescribes.of_grows hgrows

open Sample in
/-- By the amounts of their orders, the persons are merged and the amount is put out besides their columns. -/
theorem persons_by_amount_described :
    ∃ plan, (PagePlan.build catalog person Backend.postgres.capabilities (personsBy "orders.amount") false none
        false).2 = .ok plan ∧ plan.data.columns.length < plan.data.statement.items.length ∧
      plan.data.Describes (requestScope catalog person none) (projectionOf catalog person none)
        (personsBy "orders.amount") := by
  obtain ⟨plan, hplan, hlonger⟩ := exists_ok
    (P := fun plan : PagePlan => plan.data.columns.length < plan.data.statement.items.length)
    (x := (PagePlan.build catalog person Backend.postgres.capabilities (personsBy "orders.amount") false none false).2)
    (by decide +kernel)
  exact ⟨plan, hplan, hlonger, (plan_describes_statement (personsBy "orders.amount")).2 catalog person
    Backend.postgres.capabilities false none false plan hplan⟩

end PageQuery
