import PageQuery.Proofs.Growth
import PageQuery.Proofs.Sight
/-!
# What a path means

A path walks along relations, each a join that is made from its key and owned by the table before it, and ends in a
column: of the row reached, or of the table where a collection keeps its values.  So the joins of a scope, whatever was
resolved in it, are made from different keys and stand in an order in which every owner comes before what it owns.
-/
namespace PageQuery

def Scope.labels (s : Scope) : String → Prop := labelsOf s.label s.joinList

theorem Scope.labels_self (s : Scope) : s.labels s.label := List.mem_cons_self

theorem Scope.labels_mono {s s' : Scope} (hlabel : s'.label = s.label) (hjoins : s.joins <+: s'.joins) (l : String)
    (hl : s.labels l) : s'.labels l := by
  unfold Scope.labels labelsOf at hl ⊢
  rw [hlabel]
  rcases List.mem_cons.1 hl with rfl | hmem
  · exact List.mem_cons_self
  · exact List.mem_cons_of_mem _ (((hjoins.map KeyedJoin.join).map Join.label).subset hmem)

theorem Scope.Grows.labels {s s' : Scope} (h : s.Grows s') (l : String) (hl : s.labels l) : s'.labels l :=
  labels_mono h.label h.joins l hl

/-- The join of a key, as a scope over a catalog makes it. -/
structure KeyedJoin.Made (catalog : Catalog) (rootLabel : String) (j : KeyedJoin) : Prop where
  label : j.join.label = joinLabel rootLabel j.key
  toOne : j.join.toMany = false →
    ∃ e ∈ catalog.entities, j.join.table = e.table ∧ j.join.column = e.identityColumn

theorem Catalog.entity?_of_require {c : Catalog} {name : String} {e : Entity} (h : c.require name = .ok e) :
    c.entity? name = some e := by
  unfold require at h
  split at h
  · next x hx =>
    cases h
    exact hx
  · cases h

theorem Entity.lookup?_of_lookup {e : Entity} {name : String} {a : Attribute} (h : e.lookup name = .ok a) :
    e.lookup? name = some a := by
  unfold Entity.lookup at h
  split at h
  · next b hb =>
    cases h
    exact hb
  · cases h

theorem Entity.lookup_of_some {e : Entity} {name : String} {a : Attribute} (h : e.lookup? name = some a) :
    e.lookup name = .ok a := by
  unfold lookup
  rw [h]

theorem Entity.lookup_of_none {e : Entity} {name : String} (h : e.lookup? name = none) :
    e.lookup name = .error (.unknownAttribute e.name name) := by
  unfold lookup
  rw [h]

theorem Catalog.require_of_some {c : Catalog} {name : String} {e : Entity} (h : c.entity? name = some e) :
    c.require name = .ok e := by
  unfold require
  rw [h]

theorem Catalog.require_of_none {c : Catalog} {name : String} (h : c.entity? name = none) :
    c.require name = .error (.unknownEntity name) := by
  unfold require
  rw [h]

theorem Catalog.mem_of_require {c : Catalog} {name : String} {e : Entity} (h : c.require name = .ok e) :
    e ∈ c.entities := (entity?_eq_some_iff.1 (entity?_of_require h)).1

/-- Where the values of a collection stand: a table, its column that points back to the owner, the column of the values
and their type. -/
structure ValueTable where
  table : String
  owner : String
  value : String
  type : ValueType

/-- The table behind an attribute with many values: that of the collection, or of the entities related, whose values
are their identities. -/
def Catalog.valueTable? (c : Catalog) (a : Attribute) : Option ValueTable :=
  match a.storage with
  | .toMany target mappedBy =>
    (c.entity? target).map fun e => ⟨e.table, mappedBy, e.identityColumn, e.identityAttribute.type⟩
  | .collection table ownerKey valueColumn => some ⟨table, ownerKey, valueColumn, a.type⟩
  | _ => none

def Attribute.ownColumn? (a : Attribute) : Option String :=
  match a.storage with
  | .column c | .toOne _ c => some c
  | .toMany _ _ | .collection _ _ _ => none

/-! ## Joins in order -/

/-- Every join is owned by a label in front of it. -/
def Join.InOrder (seen : List String) : List Join → Prop
  | [] => True
  | j :: js => j.owner.source ∈ seen ∧ Join.InOrder (j.label :: seen) js

namespace Join.InOrder

theorem mono : ∀ {js : List Join} {seen seen' : List String}, seen ⊆ seen' → InOrder seen js → InOrder seen' js
  | [], _, _, _, _ => trivial
  | j :: _, _, _, hsub, h => ⟨hsub h.1, mono (List.cons_subset_cons j.label hsub) h.2⟩

theorem concat {k : Join} : ∀ {js : List Join} {seen : List String}, InOrder seen js →
    (k.owner.source ∈ seen ∨ ∃ j ∈ js, k.owner.source = j.label) → InOrder seen (js ++ [k])
  | [], _, _, hk => by
    rcases hk with hk | ⟨j, hj, -⟩
    · exact ⟨hk, trivial⟩
    · exact (List.not_mem_nil hj).elim
  | j :: js, seen, h, hk => by
    refine ⟨h.1, concat h.2 ?_⟩
    rcases hk with hk | ⟨i, hi, hk⟩
    · exact .inl (List.mem_cons_of_mem j.label hk)
    · rcases List.mem_cons.1 hi with rfl | hi
      · exact .inl (hk ▸ List.mem_cons_self)
      · exact .inr ⟨i, hi, hk⟩

end Join.InOrder

/-! ## Paths -/

namespace Scope
variable {s : Scope}

theorem step_cases {path : String} {p q : Position} {segment : String} {j : KeyedJoin}
    (h : s.step path p segment = .ok (j, q)) :
    ∃ a target e, p.entity.lookup segment = .ok a ∧ s.catalog.require target = .ok e ∧
      q = ⟨e, j.join.label, extendKey p.key segment⟩ ∧
      ((∃ key, a.storage = .toOne target key ∧
          j = s.joinAt (extendKey p.key segment) e.table e.identityColumn ⟨p.label, key⟩ false) ∨
        ∃ column, a.storage = .toMany target column ∧
          j = s.joinAt (extendKey p.key segment) e.table column ⟨p.label, p.entity.identityColumn⟩ true) := by
  unfold step at h
  split at h
  · cases h
  · cases ha : p.entity.lookup segment with
    | error e =>
      rw [ha] at h
      cases h
    | ok a =>
      rw [ha] at h
      obtain ⟨name, type, storage⟩ := a
      cases storage with
      | column c | collection t k v => cases h
      | toOne target key =>
        cases he : s.catalog.require target with
        | error e => simp [he, bind, Except.bind] at h
        | ok e =>
          simp only [he, bind, Except.bind, Except.ok.injEq, Prod.mk.injEq] at h
          obtain ⟨rfl, rfl⟩ := h
          exact ⟨_, target, e, rfl, he, rfl, .inl ⟨key, rfl, rfl⟩⟩
      | toMany target column =>
        cases he : s.catalog.require target with
        | error e => simp [he, bind, Except.bind] at h
        | ok e =>
          simp only [he, bind, Except.bind, Except.ok.injEq, Prod.mk.injEq] at h
          obtain ⟨rfl, rfl⟩ := h
          exact ⟨_, target, e, rfl, he, rfl, .inr ⟨column, rfl, rfl⟩⟩

theorem step_made {path : String} {p q : Position} {segment : String} {j : KeyedJoin}
    (h : s.step path p segment = .ok (j, q)) : j.Made s.catalog s.label ∧ q.label = j.join.label := by
  obtain ⟨a, target, e, -, he, rfl, ⟨key, -, rfl⟩ | ⟨column, -, rfl⟩⟩ := step_cases h
  · exact ⟨⟨rfl, fun _ => ⟨e, Catalog.mem_of_require he, rfl, rfl⟩⟩, rfl⟩
  · exact ⟨⟨rfl, fun hmany => by cases hmany⟩, rfl⟩

theorem walk_cons_ok {path segment : String} {rest : List String} {p q : Position}
    (h : (s.walk path p (segment :: rest)).2 = .ok q) :
    ∃ j p', s.step path p segment = .ok (j, p') ∧ (s.walk path p' rest).2 = .ok q ∧
      (s.walk path p (segment :: rest)).1 = j :: (s.walk path p' rest).1 := by
  simp only [walk] at h ⊢
  cases hstep : s.step path p segment with
  | error e =>
    rw [hstep] at h
    cases h
  | ok jp =>
    rw [hstep] at h
    exact ⟨jp.1, jp.2, rfl, h, rfl⟩

/-- A walk makes its joins, also before a failure, and ends where it started or at one of them. -/
theorem walk_made (path : String) : ∀ (segments : List String) (p : Position),
    (∀ j ∈ (s.walk path p segments).1, j.Made s.catalog s.label) ∧
      ∀ q, (s.walk path p segments).2 = .ok q →
        q.label = p.label ∨ ∃ j ∈ (s.walk path p segments).1, q.label = j.join.label
  | [], p => ⟨fun j hj => (List.not_mem_nil hj).elim, fun q hq => .inl (by cases hq; rfl)⟩
  | segment :: rest, p => by
    simp only [walk]
    cases hstep : s.step path p segment with
    | error e => exact ⟨fun j hj => (List.not_mem_nil hj).elim, fun q hq => by cases hq⟩
    | ok jq =>
      obtain ⟨j, p'⟩ := jq
      obtain ⟨hj, hp'⟩ := step_made hstep
      obtain ⟨hjs, hend⟩ := walk_made path rest p'
      refine ⟨fun k hk => ?_, fun q hq => .inr ?_⟩
      · rcases List.mem_cons.1 hk with rfl | hk
        · exact hj
        · exact hjs k hk
      · rcases hend q hq with hq' | ⟨k, hk, hqk⟩
        · exact ⟨j, List.mem_cons_self, hq'.trans hp'⟩
        · exact ⟨k, List.mem_cons_of_mem j hk, hqk⟩

theorem leaf_cases {path : String} {p : Position} {segment : String} {j : Option KeyedJoin} {t : Term}
    (h : s.leaf path p segment = .ok (j, t)) :
    ∃ name marker a, parseMarker path segment = .ok (name, marker) ∧ p.entity.lookup name = .ok a ∧
      ((a.isCollection = false ∧ j = none ∧ ∃ c type, a.ownColumn? = some c ∧ t = ⟨Expr.col p.label c, type, .column⟩) ∨
        (a.isCollection = true ∧ ∃ v key, s.catalog.valueTable? a = some v ∧
          key = extendKey p.key name ++ (if marker = .membership then "@" else "") ∧
          j = some (s.joinAt key v.table v.owner ⟨p.label, p.entity.identityColumn⟩ true) ∧
          t = ⟨Expr.col (joinLabel s.label key) v.value, v.type, .collection⟩)) := by
  unfold leaf at h
  cases hm : parseMarker path segment with
  | error e => simp [hm, bind, Except.bind] at h
  | ok nm =>
    obtain ⟨name, marker⟩ := nm
    cases ha : p.entity.lookup name with
    | error e => simp [hm, ha, bind, Except.bind] at h
    | ok a =>
      refine ⟨name, marker, a, rfl, ha, ?_⟩
      obtain ⟨called, type, storage⟩ := a
      cases storage with
      | column c =>
        cases marker with
        | plain =>
          simp only [hm, ha, bind, Except.bind, Except.ok.injEq, Prod.mk.injEq] at h
          exact .inl ⟨rfl, h.1.symm, _, _, rfl, h.2.symm⟩
        | shared | membership => simp [hm, ha, bind, Except.bind] at h
      | toOne target key =>
        cases marker with
        | plain =>
          cases he : s.catalog.require target with
          | error e => simp [hm, ha, he, bind, Except.bind] at h
          | ok e =>
            simp only [hm, ha, he, bind, Except.bind, Except.ok.injEq, Prod.mk.injEq] at h
            exact .inl ⟨rfl, h.1.symm, _, _, rfl, h.2.symm⟩
        | shared | membership => simp [hm, ha, bind, Except.bind] at h
      | toMany target column =>
        cases he : s.catalog.require target with
        | error e => cases marker <;> simp [hm, ha, he, bind, Except.bind] at h
        | ok e =>
          have hv : s.catalog.valueTable? ⟨called, type, .toMany target column⟩ =
              some ⟨e.table, column, e.identityColumn, e.identityAttribute.type⟩ := by
            simp [Catalog.valueTable?, Catalog.entity?_of_require he]
          cases marker with
          | plain | shared | membership =>
            simp only [hm, ha, he, bind, Except.bind, Except.ok.injEq, Prod.mk.injEq] at h
            exact .inr ⟨rfl, _, _, hv, rfl, h.1.symm, h.2.symm⟩
      | collection table ownerKey valueColumn =>
        cases marker with
        | plain | shared | membership =>
          simp only [hm, ha, bind, Except.bind, Except.ok.injEq, Prod.mk.injEq] at h
          exact .inr ⟨rfl, ⟨table, ownerKey, valueColumn, type⟩, _, rfl, rfl, h.1.symm, h.2.symm⟩

theorem leaf_made {path : String} {p : Position} {segment : String} {j : Option KeyedJoin} {t : Term}
    (h : s.leaf path p segment = .ok (j, t)) : (∀ k ∈ j.toList, k.Made s.catalog s.label) ∧ t.needsGrouping = true ∧
      ∃ l c, t.expr = Expr.col l c ∧ (l = p.label ∨ ∃ k ∈ j.toList, l = k.join.label) := by
  obtain ⟨name, marker, a, -, -, ⟨-, rfl, c, type, -, rfl⟩ | ⟨-, v, key, -, -, rfl, rfl⟩⟩ := leaf_cases h
  · exact ⟨fun k hk => (List.not_mem_nil hk).elim, rfl, _, _, rfl, .inl rfl⟩
  · refine ⟨fun k hk => ?_, rfl, _, _, rfl, .inr ⟨_, List.mem_cons_self, rfl⟩⟩
    rw [List.mem_singleton.1 hk]
    exact ⟨rfl, fun hmany => by cases hmany⟩

theorem trace_ok {path : String} {t : Term} (h : (s.trace path).2 = .ok t) :
    ∃ segments p j, FieldPath.parse path = .ok segments ∧ (s.walk path s.start segments.parents).2 = .ok p ∧
      s.leaf path p segments.last = .ok (j, t) ∧
      (s.trace path).1 = (s.walk path s.start segments.parents).1 ++ j.toList := by
  unfold trace at h ⊢
  cases hparse : FieldPath.parse path with
  | error e =>
    rw [hparse] at h
    cases h
  | ok segments =>
    simp only [hparse] at h ⊢
    rcases hwalk : s.walk path s.start segments.parents with ⟨js, e | p⟩
    · rw [hwalk] at h
      cases h
    · simp only [hwalk] at h ⊢
      cases hleaf : s.leaf path p segments.last with
      | error e =>
        rw [hleaf] at h
        cases h
      | ok jt =>
        obtain ⟨j, t'⟩ := jt
        rw [hleaf] at h
        cases h
        exact ⟨segments, p, j, rfl, by rw [hwalk], hleaf, by rw [hwalk]⟩

/-- **What a path means** sees the root or one of the joins that the path makes. -/
theorem trace_made (s : Scope) (path : String) : (∀ j ∈ (s.trace path).1, j.Made s.catalog s.label) ∧
    ∀ t, (s.trace path).2 = .ok t → t.needsGrouping = true ∧
      ∃ l c, t.expr = Expr.col l c ∧ (l = s.label ∨ ∃ j ∈ (s.trace path).1, l = j.join.label) := by
  unfold trace
  cases FieldPath.parse path with
  | error e => exact ⟨fun j hj => (List.not_mem_nil hj).elim, fun t ht => by cases ht⟩
  | ok segments =>
    obtain ⟨hjs, hend⟩ := walk_made (s := s) path segments.parents s.start
    simp only
    generalize s.walk path s.start segments.parents = walked at hjs hend
    obtain ⟨js, e | p⟩ := walked
    · exact ⟨hjs, fun t ht => by cases ht⟩
    · simp only
      cases hleaf : s.leaf path p segments.last with
      | error e => exact ⟨hjs, fun t ht => by cases ht⟩
      | ok jt =>
        obtain ⟨j, t⟩ := jt
        obtain ⟨hj, hlisted, l, c, hexpr, hl⟩ := leaf_made hleaf
        refine ⟨fun k hk => ?_, fun t' ht => ?_⟩
        · rcases List.mem_append.1 hk with hk | hk
          · exact hjs k hk
          · exact hj k hk
        · cases ht
          refine ⟨hlisted, l, c, hexpr, ?_⟩
          rcases hl with rfl | ⟨k, hk, rfl⟩
          · rcases hend p rfl with hp | ⟨k, hk, hp⟩
            · exact .inl hp
            · exact .inr ⟨k, List.mem_append_left _ hk, hp⟩
          · exact .inr ⟨k, List.mem_append_right _ hk, rfl⟩

theorem walk_inOrder (path : String) : ∀ (segments : List String) (p : Position),
    Join.InOrder [p.label] ((s.walk path p segments).1.map KeyedJoin.join)
  | [], _ => trivial
  | segment :: rest, p => by
    simp only [walk]
    cases hstep : s.step path p segment with
    | error e => exact trivial
    | ok jq =>
      obtain ⟨j, q⟩ := jq
      have howner : j.join.owner.source = p.label := by
        obtain ⟨a, target, e, -, -, -, ⟨key, -, rfl⟩ | ⟨column, -, rfl⟩⟩ := step_cases hstep <;> rfl
      have hrest := walk_inOrder path rest q
      rw [(step_made hstep).2] at hrest
      exact ⟨List.mem_singleton.2 howner, hrest.mono (List.cons_subset_cons _ (List.nil_subset _))⟩

/-- The joins of a path start at the root, each owned by the one before it. -/
theorem trace_inOrder (s : Scope) (path : String) :
    Join.InOrder [s.label] ((s.trace path).1.map KeyedJoin.join) := by
  unfold trace
  cases FieldPath.parse path with
  | error e => exact trivial
  | ok segments =>
    have hjoins := walk_inOrder (s := s) path segments.parents s.start
    have hend := (walk_made (s := s) path segments.parents s.start).2
    simp only
    generalize s.walk path s.start segments.parents = walked at hjoins hend
    obtain ⟨js, e | p⟩ := walked
    · exact hjoins
    · simp only
      cases hleaf : s.leaf path p segments.last with
      | error e => exact hjoins
      | ok jt =>
        obtain ⟨j, t⟩ := jt
        obtain ⟨name, marker, a, -, -, ⟨-, rfl, -⟩ | ⟨-, v, key, -, -, rfl, -⟩⟩ := leaf_cases hleaf
        · show Join.InOrder _ ((js ++ []).map KeyedJoin.join)
          rw [List.append_nil]
          exact hjoins
        · rw [List.map_append]
          refine hjoins.concat ?_
          rcases hend p rfl with hp | ⟨k, hk, hp⟩
          · exact .inl (List.mem_singleton.2 hp)
          · exact .inr ⟨k.join, List.mem_map_of_mem hk, hp⟩

theorem field?_congr {s t : Scope} (hfields : s.fields = t.fields) (name : String) : s.field? name = t.field? name := by
  unfold field?
  rw [hfields]

theorem field?_of_fields_eq_nil (hs : s.fields = []) (name : String) : s.field? name = none := by
  unfold field?
  rw [hs]
  rfl

theorem mem_fields_of_field? {name : String} {t : Term} (h : s.field? name = some t) : (name, t) ∈ s.fields := by
  obtain ⟨before, after, hfields, -⟩ := List.lookup_eq_some_iff.1 h
  rw [hfields]
  exact List.mem_append_right _ List.mem_cons_self

/-- What a path resolves to: a field that shadows it, or a term of the catalog, whose joins it adds. -/
theorem resolveMarked_cases {mark : String → String} {path : String} {t : Term}
    (h : (s.resolveMarked mark path).2 = .ok t) : (∃ name, (name, t) ∈ s.fields) ∨
      ∃ target, (s.resolveMarked mark path).1 = s.addJoins (s.trace target).1 ∧ (s.trace target).2 = .ok t := by
  unfold resolveMarked at h ⊢
  cases hfield : s.field? path with
  | some u =>
    rw [hfield] at h
    cases h
    exact .inl ⟨path, mem_fields_of_field? hfield⟩
  | none =>
    rw [hfield] at h
    cases hterminal : s.terminal path with
    | error e =>
      rw [hterminal] at h
      cases h
    | ok a =>
      rw [hterminal] at h
      simp only at h ⊢
      generalize (if a.isCollection && !hasChar '@' path then mark path else path) = target at h
      unfold resolve at h ⊢
      cases hmarked : s.field? target with
      | some u =>
        rw [hmarked] at h
        cases h
        exact .inl ⟨target, mem_fields_of_field? hmarked⟩
      | none =>
        rw [hmarked] at h
        exact .inr ⟨target, rfl, h⟩

theorem resolveMarked_ok {mark : String → String} {path : String} {t : Term} (hs : s.fields = [])
    (h : (s.resolveMarked mark path).2 = .ok t) :
    ∃ a, s.terminal path = .ok a ∧
      s.resolveMarked mark path =
        (s.addJoins (s.trace (if a.isCollection && !hasChar '@' path then mark path else path)).1, .ok t) ∧
      (s.trace (if a.isCollection && !hasChar '@' path then mark path else path)).2 = .ok t := by
  unfold resolveMarked resolve at h ⊢
  rw [field?_of_fields_eq_nil hs] at h ⊢
  cases ha : s.terminal path with
  | error e =>
    rw [ha] at h
    cases h
  | ok a =>
    simp only [ha, field?_of_fields_eq_nil hs] at h ⊢
    exact ⟨a, rfl, by rw [h], h⟩

theorem resolveMarked_column {mark : String → String} {path : String} {t : Term} (hs : s.fields = [])
    (h : (s.resolveMarked mark path).2 = .ok t) : t.needsGrouping = true ∧ t.expr.isAggregate = false := by
  obtain ⟨a, -, -, htrace⟩ := resolveMarked_ok hs h
  obtain ⟨hlisted, l, c, hexpr, -⟩ := (trace_made s _).2 t htrace
  refine ⟨hlisted, ?_⟩
  rw [hexpr]
  rfl

/-! ## The joins of a scope -/

/-- The joins of a scope are made by it from different keys, and every owner comes before what it owns. -/
structure Ordered (s : Scope) : Prop where
  made : ∀ j ∈ s.joins, j.Made s.catalog s.label
  keys : (s.joins.map KeyedJoin.key).Nodup
  inOrder : Join.InOrder [s.label] s.joinList

theorem ordered_new (catalog : Catalog) (root : Entity) (label : String) : (new catalog root label).Ordered :=
  ⟨fun _ hj => (List.not_mem_nil hj).elim, .nil, trivial⟩

theorem Ordered.addJoin (hs : s.Ordered) {j : KeyedJoin} (hj : j.Made s.catalog s.label)
    (howner : s.labels j.join.owner.source) : (s.addJoin j).Ordered ∧ (s.addJoin j).labels j.join.label := by
  by_cases hkey : j.key ∈ s.joins.map KeyedJoin.key
  · -- a join of the same key has the same label
    obtain ⟨k, hk, hkey'⟩ := List.mem_map.1 hkey
    rw [addJoin_of_mem hkey]
    refine ⟨hs, List.mem_cons_of_mem _ ?_⟩
    have hlabel : k.join.label = j.join.label := by
      rw [(hs.made k hk).label, hj.label, hkey']
    rw [← hlabel]
    exact List.mem_map_of_mem (List.mem_map_of_mem hk)
  · rw [addJoin_of_notMem hkey]
    refine ⟨⟨fun k hk => ?_, ?_, ?_⟩, List.mem_cons_of_mem _ ?_⟩
    · rcases List.mem_append.1 hk with hk | hk
      · exact hs.made k hk
      · exact List.mem_singleton.1 hk ▸ hj
    · rw [List.map_append]
      refine List.nodup_append.2 ⟨hs.keys, List.nodup_singleton _, fun k hk l hl => ?_⟩
      rw [List.mem_singleton.1 hl]
      rintro rfl
      exact hkey hk
    · unfold joinList
      rw [List.map_append]
      refine hs.inOrder.concat ?_
      rcases List.mem_cons.1 howner with hroot | hjoin
      · exact .inl (List.mem_singleton.2 hroot)
      · obtain ⟨k, hk, hlabel⟩ := List.mem_map.1 hjoin
        exact .inr ⟨k, hk, hlabel.symm⟩
    · simp [joinList]

theorem Ordered.addJoins : ∀ {js : List KeyedJoin} {s : Scope} {seen : List String}, s.Ordered →
    (∀ j ∈ js, j.Made s.catalog s.label) → Join.InOrder seen (js.map KeyedJoin.join) → (∀ l ∈ seen, s.labels l) →
    (s.addJoins js).Ordered ∧ ∀ j ∈ js, (s.addJoins js).labels j.join.label
  | [], _, _, hs, _, _, _ => ⟨hs, fun _ hj => (List.not_mem_nil hj).elim⟩
  | j :: js, s, seen, hs, hjs, horder, hseen => by
    obtain ⟨hs', hj⟩ := hs.addJoin (hjs j List.mem_cons_self) (hseen _ horder.1)
    have hbefore : s.joins <+: (s.addJoin j).joins := prefix_addJoins s [j]
    have hlabel : (s.addJoin j).label = s.label := label_addJoins s [j]
    have hcatalog : (s.addJoin j).catalog = s.catalog := catalog_addJoins s [j]
    have hlater : ∀ l ∈ j.join.label :: seen, (s.addJoin j).labels l := by
      intro l hl
      rcases List.mem_cons.1 hl with rfl | hl
      · exact hj
      · exact labels_mono hlabel hbefore l (hseen l hl)
    obtain ⟨hs'', hlabels⟩ := Ordered.addJoins hs'
      (by rw [hcatalog, hlabel]; exact fun k hk => hjs k (List.mem_cons_of_mem j hk)) horder.2 hlater
    refine ⟨hs'', fun k hk => ?_⟩
    rcases List.mem_cons.1 hk with rfl | hk
    · exact labels_mono (label_addJoins _ js) (prefix_addJoins _ js) _ hj
    · exact hlabels k hk

/-- **A path** leaves the joins of a scope in order, and its own among them. -/
theorem Ordered.addPath (hs : s.Ordered) (path : String) :
    (s.addJoins (s.trace path).1).Ordered ∧ ∀ j ∈ (s.trace path).1, (s.addJoins (s.trace path).1).labels j.join.label :=
  hs.addJoins (trace_made s path).1 (trace_inOrder s path) fun _ hl => List.mem_singleton.1 hl ▸ s.labels_self

theorem Ordered.addPaths (hs : s.Ordered) (paths : List String) : (s.addPaths paths).Ordered := by
  induction paths generalizing s with
  | nil => exact hs
  | cons path rest ih => exact ih (hs.addPath path).1

/-- The joins of a scope are those of some paths from its root. -/
def Laid (s : Scope) : Prop := ∃ paths, s.joins = (s.base.addPaths paths).joins

theorem laid_new (catalog : Catalog) (root : Entity) (label : String) : (new catalog root label).Laid := ⟨[], rfl⟩

theorem Grows.laid {s' : Scope} (h : s.Grows s') (hs : s.Laid) : s'.Laid := by
  obtain ⟨paths, hjoins⟩ := hs
  obtain ⟨more, hmore⟩ := h.paths
  refine ⟨paths ++ more, ?_⟩
  have hbase : s.base = (s.base.addPaths paths).base := (base_addPaths s.base paths).symm
  rw [hmore, h.base, addPaths_append]
  exact joins_addPaths_congr hbase hjoins more

/-- **The joins of paths are in order.** -/
theorem Laid.ordered (hs : s.Laid) : s.Ordered := by
  obtain ⟨paths, hjoins⟩ := hs
  have hpaths := (ordered_new s.catalog s.root s.label).addPaths paths
  have hcatalog : (s.base.addPaths paths).catalog = s.catalog := catalog_addPaths s.base paths
  have hlabel : (s.base.addPaths paths).label = s.label := label_addPaths s.base paths
  change (s.base.addPaths paths).Ordered at hpaths
  refine ⟨?_, ?_, ?_⟩
  · have hmade := hpaths.made
    rwa [hcatalog, hlabel, ← hjoins] at hmade
  · rw [hjoins]
    exact hpaths.keys
  · have horder := hpaths.inOrder
    rw [Scope.joinList, hlabel, ← hjoins] at horder
    exact horder

theorem Laid.not_labels (hs : s.Laid) {l : String} (hne : l ≠ s.label) (hlength : l.length ≤ s.label.length) :
    ¬s.labels l := by
  intro hl
  rcases List.mem_cons.1 hl with hself | hjoin
  · exact hne hself
  · obtain ⟨j, hj, rfl⟩ := List.mem_map.1 hjoin
    obtain ⟨k, hk, rfl⟩ := List.mem_map.1 hj
    rw [(hs.ordered.made k hk).label, joinLabel, String.length_append, String.length_append] at hlength
    have hone : ("_" : String).length = 1 := rfl
    omega

end Scope

end PageQuery
