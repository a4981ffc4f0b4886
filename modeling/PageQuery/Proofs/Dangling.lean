import PageQuery.Proofs.Crossing
import PageQuery.Proofs.PathsDecide
/-!
# Relations that lead nowhere

The check of a catalog reports a relation whose target is not registered.  Where it reports none, every walk from a
registered entity stays among registered entities, however the relations turn back on themselves and whatever entities
were replaced after others referred to them, so no path and no build fails for want of an entity.  Where it reports
one, the name of the relation is a path from its own entity that does.
-/
namespace PageQuery

/-! ## What the check says -/

namespace Catalog

/-- Every relation of a registered entity leads to a registered one. -/
def Complete (c : Catalog) : Prop :=
  ∀ e ∈ c.entities, ∀ a ∈ e.attributes, ∀ target ∈ targetOf a.storage, (c.entity? target).isSome = true

/-- **The check is silent** just where every relation leads somewhere. -/
theorem problems_eq_nil_iff {c : Catalog} : c.problems = [] ↔ c.Complete := by
  unfold problems
  rw [← List.length_eq_zero_iff, List.length_mergeSort, List.length_eq_zero_iff, List.flatMap_eq_nil_iff]
  refine forall₂_congr fun e _ => ?_
  rw [List.filterMap_eq_nil_iff]
  refine forall₂_congr fun a _ => ?_
  cases targetOf a.storage with
  | none => simp
  | some target => cases htarget : c.entity? target <;> simp [htarget]

theorem mem_entities_register {c : Catalog} {e x : Entity} (h : x ∈ (c.register e).entities) :
    x ∈ c.entities ∨ x = e := by
  rcases List.mem_append.1 h with h | h
  · exact .inl (List.mem_filter.1 h).1
  · exact .inr (List.mem_singleton.1 h)

theorem mem_of_mem_ofList {es : List Entity} {e : Entity} (h : e ∈ (ofList es).entities) : e ∈ es := by
  have hfold : ∀ (es : List Entity) (c : Catalog), e ∈ (es.foldl register c).entities → e ∈ c.entities ∨ e ∈ es := by
    intro es
    induction es with
    | nil => exact fun c h => .inl h
    | cons x es ih =>
      intro c h
      rcases ih _ h with h | h
      · rcases mem_entities_register h with h | rfl
        · exact .inl h
        · exact .inr List.mem_cons_self
      · exact .inr (List.mem_cons_of_mem x h)
  exact (hfold es empty h).resolve_left List.not_mem_nil

theorem Complete.leads {c : Catalog} (h : c.Complete) :
    c.Leads (· ∈ c.entities) fun e => ∀ name, e ≠ .unknownEntity name where
  invalid _ _ _ := by simp
  unknown _ _ _ := by simp
  target e he a ha target htarget := by
    obtain ⟨x, hx⟩ := Option.isSome_iff_exists.1 (h e he a ha target htarget)
    rw [require_of_some hx]
    exact failsBy_ok x
  stays _ _ := mem_of_require

end Catalog

/-! ## An attribute under its name -/

namespace Entity

/-- The entities that a description can give. -/
def Described (e : Entity) : Prop := ∃ name table ds, e = ofDeclarations name table ds

theorem nodup_push {e : Entity} (a : Attribute) (h : (e.attributes.map Attribute.name).Nodup) :
    ((e.push a).attributes.map Attribute.name).Nodup := by
  have hothers : ((e.without a.name).attributes.map Attribute.name).Nodup := h.sublist (List.filter_sublist.map _)
  unfold push
  rw [List.map_append, List.nodup_append]
  refine ⟨hothers, List.nodup_singleton _, fun x hx y hy hxy => ?_⟩
  obtain ⟨b, hb, rfl⟩ := List.mem_map.1 hx
  have hne := (List.mem_filter.1 hb).2
  rw [List.mem_singleton.1 hy] at hxy
  simp [hxy] at hne

theorem nodup_declare {e : Entity} (d : Declaration) (h : (e.attributes.map Attribute.name).Nodup) :
    ((e.declare d).attributes.map Attribute.name).Nodup := by
  cases d with
  | identity name column type => exact nodup_push _ (h.sublist (List.filter_sublist.map _))
  | scalar | scalarColumn | toOne | toMany | collection => exact nodup_push _ h

theorem Described.nodup {e : Entity} (h : e.Described) : (e.attributes.map Attribute.name).Nodup := by
  obtain ⟨name, table, ds, rfl⟩ := h
  have hfold : ∀ (ds : List Declaration) (e : Entity), (e.attributes.map Attribute.name).Nodup →
      ((ds.foldl declare e).attributes.map Attribute.name).Nodup := by
    intro ds
    induction ds with
    | nil => exact fun e h => h
    | cons d ds ih => exact fun e h => ih _ (nodup_declare d h)
  exact hfold ds (new name table) (List.nodup_singleton _)

theorem lookup_of_mem {e : Entity} (hnames : (e.attributes.map Attribute.name).Nodup) {a : Attribute}
    (ha : a ∈ e.attributes) : e.lookup a.name = .ok a := by
  cases hfound : e.lookup a.name with
  | ok b =>
    obtain ⟨hb, hname⟩ := lookup_ok hfound
    rw [List.inj_on_of_nodup_map hnames hb ha hname]
  | error f =>
    unfold lookup lookup? at hfound
    split at hfound
    · cases hfound
    · next hnone => simpa using List.find?_eq_none.1 hnone a ha

end Entity

/-- A name that a path can be made of: not empty, without dots and marks. -/
def PlainName (name : String) : Prop := name ≠ "" ∧ hasChar '.' name = false ∧ hasChar '@' name = false

instance (name : String) : Decidable (PlainName name) := inferInstanceAs (Decidable (_ ∧ _ ∧ _))

section
variable {name : String}

theorem PlainName.notMem (h : PlainName name) : '.' ∉ name.toList ∧ '@' ∉ name.toList :=
  ⟨fun hmem => by simpa [hasChar, hmem] using h.2.1, fun hmem => by simpa [hasChar, hmem] using h.2.2⟩

theorem PlainName.parse (h : PlainName name) : FieldPath.parse name = .ok ⟨[], name⟩ := by
  have hsplit : splitText '.' name = [name] := by
    rw [splitText, splitChars_of_notMem h.notMem.1, List.map_singleton, String.ofList_toList]
  unfold FieldPath.parse
  simp only [hsplit]
  refine if_neg fun hany => h.1 ?_
  simpa using hany

theorem PlainName.parseMarker (h : PlainName name) (path : String) :
    PageQuery.parseMarker path name = .ok (name, .plain) :=
  parseMarker_plain h.1 h.notMem.2 path

end

/-- A relation with a plain name whose target is not registered is a path that leads nowhere. -/
theorem Scope.resolve_dangling {c : Catalog} {e : Entity} {label : String} {a : Attribute} {target : String}
    (hnames : (e.attributes.map Attribute.name).Nodup) (ha : a ∈ e.attributes) (hname : PlainName a.name)
    (htarget : target ∈ Catalog.targetOf a.storage) (hmissing : c.entity? target = none) :
    ((Scope.new c e label).resolve a.name).2 = .error (.unknownEntity target) := by
  have hrequire := Catalog.require_of_none hmissing
  have hleaf : (Scope.new c e label).leaf a.name (Scope.new c e label).start a.name =
      .error (.unknownEntity target) := by
    have hlookup : (Scope.new c e label).start.entity.lookup a.name = .ok a := Entity.lookup_of_mem hnames ha
    have hcatalog : (Scope.new c e label).catalog.require target = .error (.unknownEntity target) := hrequire
    unfold Scope.leaf
    obtain ⟨name, type, storage⟩ := a
    cases storage with
    | column | collection => cases htarget
    | toOne t key | toMany t column =>
      cases htarget
      simp only [hname.parseMarker, hlookup, hcatalog, bind, Except.bind]
  have htrace : ((Scope.new c e label).trace a.name).2 = .error (.unknownEntity target) := by
    simp only [Scope.trace, hname.parse, Scope.walk, hleaf]
  exact htrace

/-! ## Nothing dangles -/

def Scope.RootedIn (s : Scope) (c : Catalog) : Prop := s.catalog = c ∧ s.root ∈ c.entities

/-- No work at a registered root ends for want of an entity: neither reading or measuring a path, nor compiling a
request over whatever fields and conditions there are, nor planning what came of it, nor a build from its start. -/
structure Catalog.NeverDangles (c : Catalog) : Prop where
  terminal : ∀ s : Scope, s.RootedIn c → ∀ path name, s.terminal path ≠ .error (.unknownEntity name)
  measure : ∀ s : Scope, s.RootedIn c → ∀ m path name, (s.measure m path).2 ≠ .error (.unknownEntity name)
  restrict : ∀ s : Scope, s.RootedIn c → ∀ r projection conditions name,
    (restrict s r projection conditions).2 ≠ .error (.unknownEntity name)
  rows : ∀ p : Prepared, p.scope.RootedIn c → ∀ r name, dataPlan r p ≠ .error (.unknownEntity name)
  build : ∀ root ∈ c.entities, ∀ caps r wantCount recipe requireProjection name,
    (PagePlan.build c root caps r wantCount recipe requireProjection).2 ≠ .error (.unknownEntity name)

theorem FailsBy.ne_unknownEntity {α : Type} {x : Except Failure α}
    (h : FailsBy (fun e => ∀ name, e ≠ .unknownEntity name) x) (name : String) : x ≠ .error (.unknownEntity name) :=
  fun hx => h _ hx name rfl

theorem Catalog.Complete.neverDangles {c : Catalog} (h : c.Complete) : c.NeverDangles where
  terminal s hs path := by
    obtain ⟨rfl, hroot⟩ := hs
    exact (Scope.failsBy_terminal h.leads hroot path).ne_unknownEntity
  measure s hs m path := by
    obtain ⟨rfl, hroot⟩ := hs
    exact (Scope.failsBy_measure h.leads hroot m path).ne_unknownEntity
  restrict s hs r projection conditions := by
    obtain ⟨rfl, hroot⟩ := hs
    refine (failsBy_iff.2 ?_).ne_unknownEntity
    rw [failureOf_restrict]
    exact Filter.failsBy h.leads hroot _
  rows p hp r := by
    obtain ⟨rfl, hroot⟩ := hp
    refine (failsBy_iff.2 ?_).ne_unknownEntity
    rw [failureOf_dataPlan]
    exact Ordering.failsBy h.leads hroot _ _
  build root hroot caps r wantCount recipe requireProjection := by
    refine (failsBy_iff.2 ?_).ne_unknownEntity
    rw [failureOf_build]
    exact failsBy_buildFailure h.leads hroot fun name => by simp

/-- **The check of a catalog is silent just where no path dangles.**  Of described entities with plain attribute names,
registered in any order and some in the place of others: the check reports nothing if and only if no path at a
registered root fails for want of an entity, and then no build there does. -/
theorem problems_eq_nil_iff_neverDangles {es : List Entity}
    (hes : ∀ e ∈ es, e.Described ∧ ∀ a ∈ e.attributes, PlainName a.name) :
    ((Catalog.ofList es).problems = [] ↔ ∀ s : Scope, s.RootedIn (.ofList es) →
        ∀ path name, (s.resolve path).2 ≠ .error (.unknownEntity name)) ∧
      ((Catalog.ofList es).problems = [] → (Catalog.ofList es).NeverDangles) := by
  rw [Catalog.problems_eq_nil_iff]
  refine ⟨⟨fun hcomplete s hs path => ?_, fun hpaths e he a ha target htarget => ?_⟩, fun h => h.neverDangles⟩
  · obtain ⟨hcatalog, hroot⟩ := hs
    rw [← hcatalog] at hcomplete hroot
    exact (Scope.failsBy_resolve hcomplete.leads hroot path).ne_unknownEntity
  · obtain ⟨hdescribed, hnames⟩ := hes e (Catalog.mem_of_mem_ofList he)
    by_contra hmissing
    rw [Bool.not_eq_true, Option.isSome_eq_false_iff, Option.isNone_iff_eq_none] at hmissing
    exact hpaths (Scope.new (.ofList es) e dataLabel) ⟨rfl, he⟩ a.name target
      (Scope.resolve_dangling hdescribed.nodup ha (hnames a ha) htarget hmissing)

namespace Sample

def acquainted : Entity :=
  .ofDeclarations "person" "persons" [.toOne "partner" "person" "partner_id", .toMany "orders" "order" "person_id"]

def owned : Entity := .ofDeclarations "order" "orders" [.scalar "amount" .float, .toOne "owner" "person" "person_id"]

def mended : List Entity :=
  [.ofDeclarations "order" "orders" [.toOne "owner" "customer" "customer_id"], acquainted, owned]

end Sample

open Sample in
/-- Relations in circles lead on without end, and an order that was replaced leads nowhere no more. -/
theorem mended_never_dangles :
    (∀ e ∈ mended, e.Described ∧ ∀ a ∈ e.attributes, PlainName a.name) ∧ (Catalog.ofList mended).problems = [] ∧
      ∀ path name,
        ((Scope.new (.ofList mended) acquainted dataLabel).resolve path).2 ≠ .error (.unknownEntity name) := by
  have hmended : ∀ e ∈ mended, e.Described ∧ ∀ a ∈ e.attributes, PlainName a.name := by
    intro e he
    refine ⟨?_, by revert e; decide +kernel⟩
    simp only [mended, List.mem_cons, List.not_mem_nil, or_false] at he
    rcases he with rfl | rfl | rfl <;> exact ⟨_, _, _, rfl⟩
  have hsilent : (Catalog.ofList mended).problems = [] := by decide +kernel
  exact ⟨hmended, hsilent, (problems_eq_nil_iff_neverDangles hmended).1.1 hsilent _
    ⟨rfl, by decide +kernel⟩⟩

end PageQuery
