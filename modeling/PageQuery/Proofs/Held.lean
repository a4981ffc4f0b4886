import PageQuery.Proofs.Choices
import PageQuery.Proofs.Crossing
/-!
# What the collection at a path holds

Names lead from a row of an entity to related rows and at last to a collection; what that holds for the row is all the
cells found on the way.  The membership join of the path shows just these: a choice of rows along the path's joins shows
one of them or nothing, and each of them is shown by some choice.
-/
namespace PageQuery

variable {d : Dialect} {db : Store}

/-- The rows that a relation leads to from a row of an entity, with their entity. -/
def Store.related (d : Dialect) (db : Store) (c : Catalog) (e : Entity) (a : Attribute) (r : Row) :
    List (Entity × Row) :=
  match a.storage with
  | .toOne target key =>
    (c.entity? target).toList.flatMap fun e' => (db.matching d e'.table e'.identityColumn (r key)).map (e', ·)
  | .toMany target column =>
    (c.entity? target).toList.flatMap fun e' => (db.matching d e'.table column (r e.identityColumn)).map (e', ·)
  | .column _ | .collection _ _ _ => []

/-- What the collection that names lead to holds for a row of an entity. -/
def Store.held (d : Dialect) (db : Store) (c : Catalog) : Entity → List String → Row → List Cell
  | _, [], _ => []
  | e, name :: rest, r =>
    match e.lookup? name with
    | none => []
    | some a =>
      if rest.isEmpty then
        (c.valueTable? a).toList.flatMap fun v =>
          (db.matching d v.table v.owner (r e.identityColumn)).map fun t => t v.value
      else (db.related d c e a r).flatMap fun x => db.held d c x.1 rest x.2

def Catalog.tableAlong? (c : Catalog) : Entity → List String → Option ValueTable
  | _, [] => none
  | e, name :: rest =>
    match e.lookup? name with
    | none => none
    | some a =>
      if rest.isEmpty then c.valueTable? a
      else ((targetOf a.storage).bind c.entity?).bind fun e' => c.tableAlong? e' rest

/-! ## Rows -/

theorem matching_null (d : Dialect) (db : Store) (table column : String) : db.matching d table column none = [] := by
  refine List.filter_eq_nil_iff.2 fun r _ hequal => ?_
  unfold Dialect.equal at hequal
  cases h : r column <;> simp [h, Dialect.key] at hequal

theorem related_nullRow (c : Catalog) (e : Entity) (a : Attribute) : db.related d c e a nullRow = [] := by
  have hcell : ∀ column, nullRow column = none := fun _ => rfl
  unfold Store.related
  cases a.storage <;> simp [hcell, matching_null]

theorem held_nullRow (c : Catalog) (e : Entity) (names : List String) : db.held d c e names nullRow = [] := by
  cases names with
  | nil => rfl
  | cons name rest =>
    have hcell : ∀ column, nullRow column = none := fun _ => rfl
    unfold Store.held
    cases e.lookup? name with
    | none => rfl
    | some a => simp [hcell, matching_null, related_nullRow]

theorem isCollection_of_valueTable? {c : Catalog} {a : Attribute} {v : ValueTable} (h : c.valueTable? a = some v) :
    a.isCollection = true := by
  obtain ⟨name, type, storage⟩ := a
  cases storage <;> first | rfl | cases h

/-! ## Steps and walks -/

namespace Scope
variable {s : Scope}

theorem step_related {path : String} {p q : Position} {segment : String} {j : KeyedJoin}
    (h : s.step path p segment = .ok (j, q)) : q.label = j.join.label ∧ j.join.owner.source = p.label ∧
      ∃ a, p.entity.lookup? segment = some a ∧ (Catalog.targetOf a.storage).bind s.catalog.entity? = some q.entity ∧
        ∀ (d : Dialect) (db : Store) (r : Row), db.related d s.catalog p.entity a r =
          (db.matching d j.join.table j.join.column (r j.join.owner.name)).map (q.entity, ·) := by
  obtain ⟨a, target, e, ha, he, rfl, hj⟩ := step_cases h
  have hentity := Catalog.entity?_of_require he
  rcases hj with ⟨key, hstorage, rfl⟩ | ⟨column, hstorage, rfl⟩
  · refine ⟨rfl, rfl, a, Entity.lookup?_of_lookup ha, by simp [hstorage, Catalog.targetOf, hentity], fun d db r => ?_⟩
    simp [Store.related, hstorage, hentity, joinAt]
  · refine ⟨rfl, rfl, a, Entity.lookup?_of_lookup ha, by simp [hstorage, Catalog.targetOf, hentity], fun d db r => ?_⟩
    simp [Store.related, hstorage, hentity, joinAt]

theorem walk_tableAlong (path name : String) : ∀ {segments : List String} {p q : Position},
    (s.walk path p segments).2 = .ok q →
      s.catalog.tableAlong? p.entity (segments ++ [name]) = s.catalog.tableAlong? q.entity [name]
  | [], _, _, h => by
    cases h
    rfl
  | segment :: rest, p, q, h => by
    obtain ⟨j, p', hstep, hend, -⟩ := walk_cons_ok h
    obtain ⟨-, -, a, ha, htarget, -⟩ := step_related hstep
    rw [← walk_tableAlong path name hend, List.cons_append, Catalog.tableAlong?, ha]
    simp [htarget]

theorem held_cons {p : Position} {segment : String} {a : Attribute} (ha : p.entity.lookup? segment = some a)
    {names : List String} (hnames : names ≠ []) (r : Row) :
    db.held d s.catalog p.entity (segment :: names) r =
      (db.related d s.catalog p.entity a r).flatMap fun x => db.held d s.catalog x.1 names x.2 := by
  rw [Store.held, ha]
  simp [hnames]

theorem walk_held {φ : String → Row} (path name : String) : ∀ {segments : List String} {p q : Position},
    (s.walk path p segments).2 = .ok q → (∀ j ∈ (s.walk path p segments).1, j.join.Fits d db φ) →
      ∀ x ∈ db.held d s.catalog q.entity [name] (φ q.label),
        x ∈ db.held d s.catalog p.entity (segments ++ [name]) (φ p.label)
  | [], _, _, h, _, x, hx => by
    cases h
    exact hx
  | segment :: rest, p, q, h, hfits, x, hx => by
    obtain ⟨j, p', hstep, hend, hjoins⟩ := walk_cons_ok h
    rw [hjoins] at hfits
    obtain ⟨hlabel, howner, a, ha, -, hrelated⟩ := step_related hstep
    have hlater := walk_held path name hend (fun k hk => hfits k (List.mem_cons_of_mem j hk)) x hx
    have hne : rest ++ [name] ≠ [] := by simp
    rw [List.cons_append, held_cons ha hne, hrelated, List.flatMap_map]
    rcases hfits j List.mem_cons_self with hmatch | ⟨-, hnull⟩
    · rw [howner] at hmatch
      exact List.mem_flatMap.2 ⟨_, hmatch, by rwa [hlabel] at hlater⟩
    -- where none matched the row is null, and nothing is held for it
    · rw [hlabel, hnull, held_nullRow] at hlater
      cases hlater

/-- What is held where a walk starts is held, for some choice of rows, where it ends. -/
theorem exists_walk_held (path name : String) : ∀ {segments : List String} {p q : Position},
    (s.walk path p segments).2 = .ok q → (p.label :: (s.walk path p segments).1.map fun j => j.join.label).Nodup →
      ∀ (r : Row), ∀ x ∈ db.held d s.catalog p.entity (segments ++ [name]) r,
        ∃ φ : String → Row, φ p.label = r ∧ (∀ j ∈ (s.walk path p segments).1, j.join.Fits d db φ) ∧
          x ∈ db.held d s.catalog q.entity [name] (φ q.label)
  | [], _, _, h, _, r, x, hx => by
    cases h
    exact ⟨fun _ => r, rfl, fun _ hj => (List.not_mem_nil hj).elim, hx⟩
  | segment :: rest, p, q, h, hnodup, r, x, hx => by
    obtain ⟨j, p', hstep, hend, hjoins⟩ := walk_cons_ok h
    obtain ⟨hlabel, howner, a, ha, -, hrelated⟩ := step_related hstep
    have hne : rest ++ [name] ≠ [] := by simp
    rw [List.cons_append, held_cons ha hne, hrelated, List.flatMap_map] at hx
    obtain ⟨t, ht, hx⟩ := List.mem_flatMap.1 hx
    rw [hjoins, List.map_cons, List.nodup_cons, ← hlabel] at hnodup
    obtain ⟨φ, hφ, hfits, hheld⟩ := exists_walk_held path name hend hnodup.2 t x hx
    -- the same choice with the row given where the walk starts
    have hlater : ∀ l ∈ [p'.label] ++ (s.walk path p' rest).1.map fun k => k.join.label, l ≠ p.label := by
      rintro l hl rfl
      exact hnodup.1 hl
    rw [hjoins]
    refine ⟨Function.update φ p.label r, Function.update_self _ _ _, fun k hk => ?_, ?_⟩
    · rcases List.mem_cons.1 hk with rfl | hk
      · unfold Join.Fits
        rw [howner, Function.update_self, ← hlabel, Function.update_of_ne (hlater _ List.mem_cons_self), hφ]
        exact .inl ht
      · have hsource := (walk_inOrder (s := s) path rest p').owner_mem (List.mem_map_of_mem hk)
        rw [List.map_map] at hsource
        exact (hfits k hk).update (hlater _ (List.mem_append_right _ (List.mem_map_of_mem hk))) (hlater _ hsource) r
    · have hlast : q.label ∈ [p'.label] ++ (s.walk path p' rest).1.map fun k => k.join.label := by
        rcases (walk_made (s := s) path rest p').2 q hend with hq | ⟨k, hk, hq⟩
        · exact hq ▸ List.mem_cons_self
        · exact hq ▸ List.mem_cons_of_mem _ (List.mem_map_of_mem hk)
      rwa [Function.update_of_ne (hlater _ hlast)]

/-- Joins show a collection under a label: a choice of rows that fits them has one of the cells held for the root row
there or nothing, and each of these cells is in some choice. -/
structure Shows (s : Scope) (js : List KeyedJoin) (names : List String) (l : String) (v : ValueTable) : Prop where
  made : ∃ j ∈ js, j.join.label = l
  sound : ∀ (d : Dialect) (db : Store) (φ : String → Row), (∀ j ∈ js, j.join.Fits d db φ) →
    φ l v.value = none ∨ φ l v.value ∈ db.held d s.catalog s.root names (φ s.label)
  complete : (s.label :: js.map fun j => j.join.label).Nodup → ∀ (d : Dialect) (db : Store) (r : Row),
    ∀ x ∈ db.held d s.catalog s.root names r,
      ∃ φ : String → Row, φ s.label = r ∧ (∀ j ∈ js, j.join.Fits d db φ) ∧ φ l v.value = x

theorem held_singleton {e : Entity} {name : String} {a : Attribute} {v : ValueTable} (ha : e.lookup name = .ok a)
    (hv : s.catalog.valueTable? a = some v) (r : Row) :
    db.held d s.catalog e [name] r = (db.matching d v.table v.owner (r e.identityColumn)).map fun t => t v.value := by
  rw [Store.held, Entity.lookup?_of_lookup ha]
  simp [hv]

theorem tableAlong_singleton {e : Entity} {name : String} {a : Attribute} (ha : e.lookup name = .ok a) :
    s.catalog.tableAlong? e [name] = s.catalog.valueTable? a := by
  rw [Catalog.tableAlong?, Entity.lookup?_of_lookup ha]
  rfl

theorem shows_walk {path name key : String} {segments : List String} {q : Position} {a : Attribute} {v : ValueTable}
    (hend : (s.walk path s.start segments).2 = .ok q) (ha : q.entity.lookup name = .ok a)
    (hv : s.catalog.valueTable? a = some v) :
    s.Shows ((s.walk path s.start segments).1 ++
        [s.joinAt key v.table v.owner ⟨q.label, q.entity.identityColumn⟩ true])
      (segments ++ [name]) (joinLabel s.label key) v := by
  refine ⟨⟨_, List.mem_append_right _ List.mem_cons_self, rfl⟩, fun d db φ hfits => ?_, fun hnodup d db r x hx => ?_⟩
  · have hwalked : ∀ x ∈ db.held d s.catalog q.entity [name] (φ q.label),
        x ∈ db.held d s.catalog s.start.entity (segments ++ [name]) (φ s.start.label) :=
      walk_held path name hend fun j hj => hfits j (List.mem_append_left _ hj)
    rcases hfits _ (List.mem_append_right _ List.mem_cons_self) with hmatch | ⟨-, hnull⟩
    · refine .inr (hwalked _ ?_)
      rw [held_singleton ha hv]
      exact List.mem_map_of_mem hmatch
    · left
      rw [show φ (joinLabel s.label key) = nullRow from hnull]
      rfl
  · rw [List.map_append, ← List.cons_append, List.map_singleton] at hnodup
    obtain ⟨hwalked, -, hapart⟩ := List.nodup_append.1 hnodup
    obtain ⟨φ, hφ, hfits, hheld⟩ := exists_walk_held path name hend hwalked r x hx
    rw [held_singleton ha hv] at hheld
    obtain ⟨t, ht, rfl⟩ := List.mem_map.1 hheld
    -- the same choice with the row of the collection that shows the cell
    have hlater : ∀ l ∈ [s.label] ++ (s.walk path s.start segments).1.map fun j => j.join.label,
        l ≠ joinLabel s.label key := fun l hl => hapart l hl _ List.mem_cons_self
    have hlabel : q.label ≠ joinLabel s.label key := by
      rcases (walk_made (s := s) path segments s.start).2 q hend with hq | ⟨k, hk, hq⟩
      · exact hq ▸ hlater _ List.mem_cons_self
      · exact hq ▸ hlater _ (List.mem_append_right _ (List.mem_map_of_mem hk))
    refine ⟨Function.update φ (joinLabel s.label key) t, ?_, fun j hj => ?_, ?_⟩
    · exact (Function.update_of_ne (hlater _ List.mem_cons_self) _ _).trans hφ
    · rcases List.mem_append.1 hj with hj | hj
      · have hsource := (walk_inOrder (s := s) path segments s.start).owner_mem (List.mem_map_of_mem hj)
        rw [List.map_map] at hsource
        exact (hfits j hj).update (hlater _ (List.mem_append_right _ (List.mem_map_of_mem hj))) (hlater _ hsource) t
      · rw [List.mem_singleton.1 hj]
        refine .inl ?_
        show Function.update φ (joinLabel s.label key) t (joinLabel s.label key) ∈ db.matching d v.table v.owner
          (Function.update φ (joinLabel s.label key) t q.label q.entity.identityColumn)
        rw [Function.update_self, Function.update_of_ne hlabel]
        exact ht
    · rw [Function.update_self]

/-- **The joins of a path to a collection show what it holds.** -/
theorem trace_shows {path name : String} {segments : FieldPath} {marker : Marker} {v : ValueTable} {t : Term}
    (hparse : FieldPath.parse path = .ok segments) (hmarker : parseMarker path segments.last = .ok (name, marker))
    (hv : s.catalog.tableAlong? s.root (segments.parents ++ [name]) = some v) (h : (s.trace path).2 = .ok t) :
    ∃ l, t = ⟨Expr.col l v.value, v.type, .collection⟩ ∧
      s.Shows (s.trace path).1 (segments.parents ++ [name]) l v := by
  obtain ⟨segments', q, j, hparse', hwalk, hleaf, hjoins⟩ := trace_ok h
  rw [hparse] at hparse'
  cases hparse'
  obtain ⟨name', marker', a, hmarker', ha, hcases⟩ := leaf_cases hleaf
  rw [hmarker] at hmarker'
  cases hmarker'
  rw [show s.root = s.start.entity from rfl, walk_tableAlong path name hwalk, tableAlong_singleton ha] at hv
  obtain ⟨hnone, -⟩ | ⟨-, v', key, hv', -, rfl, rfl⟩ := hcases
  · rw [isCollection_of_valueTable? hv] at hnone
    cases hnone
  · rw [hv] at hv'
    cases hv'
    rw [hjoins]
    exact ⟨_, rfl, shows_walk hwalk ha hv⟩

theorem terminal_ok {path : String} {a : Attribute} (h : s.terminal path = .ok a) :
    ∃ segments p name marker, FieldPath.parse path = .ok segments ∧ (s.walk path s.start segments.parents).2 = .ok p ∧
      parseMarker path segments.last = .ok (name, marker) ∧ p.entity.lookup name = .ok a := by
  unfold terminal at h
  cases hparse : FieldPath.parse path with
  | error e => simp [hparse, bind, Except.bind] at h
  | ok segments =>
    cases hwalk : (s.walk path s.start segments.parents).2 with
    | error e => simp [hparse, hwalk, bind, Except.bind] at h
    | ok p =>
      cases hmarker : parseMarker path segments.last with
      | error e => simp [hparse, hwalk, hmarker, bind, Except.bind] at h
      | ok nm =>
        obtain ⟨name, marker⟩ := nm
        simp only [hparse, hwalk, hmarker, bind, Except.bind] at h
        exact ⟨segments, p, name, marker, rfl, hwalk, hmarker, h⟩

/-- **A collection is read through joins that show what it holds**, by whichever mark its path is given. -/
theorem resolveMarked_shows {path closing : String} {marker : Marker} {v : ValueTable} {t : Term}
    (hclosing : '.' ∉ closing.toList)
    (hmarked : ∀ {last name : String} {m : Marker}, parseMarker path last = .ok (name, m) → '@' ∉ last.toList →
      parseMarker (markLast "@" closing path) ("@" ++ last ++ closing) = .ok (name, marker))
    (hfields : s.fields = []) (hunmarked : hasChar '@' path = false)
    (hv : s.catalog.tableAlong? s.root (splitText '.' path) = some v)
    (h : (s.resolveMarked (markLast "@" closing) path).2 = .ok t) :
    s.resolveMarked (markLast "@" closing) path = (s.addJoins (s.trace (markLast "@" closing path)).1, .ok t) ∧
      (s.trace (markLast "@" closing path)).2 = .ok t ∧ ∃ l, t = ⟨Expr.col l v.value, v.type, .collection⟩ ∧
        s.Shows (s.trace (markLast "@" closing path)).1 (splitText '.' path) l v := by
  obtain ⟨a, hterminal, hresolved, htrace⟩ := resolveMarked_ok hfields h
  obtain ⟨segments, p, name, m, hparse, hwalk, hmarker, ha⟩ := terminal_ok hterminal
  have hsplit := (FieldPath.parse_ok hparse).1
  have hlast : '@' ∉ segments.last.toList := notMem_last_of_unmarked hparse hunmarked
  obtain ⟨rfl, -⟩ := parseMarker_unmarked hmarker hlast
  have hmany : a.isCollection = true := by
    rw [hsplit, show s.root = s.start.entity from rfl, walk_tableAlong path segments.last hwalk,
      tableAlong_singleton ha] at hv
    exact isCollection_of_valueTable? hv
  rw [hmany, hunmarked, Bool.not_false, Bool.and_true, if_pos rfl] at hresolved htrace
  rw [hsplit] at hv ⊢
  have hshows := trace_shows (parse_marked hclosing hparse) (hmarked hmarker hlast) hv htrace
  exact ⟨hresolved, htrace, hshows⟩

theorem filterTarget_shows {path : String} {v : ValueTable} {t : Term} (hfields : s.fields = [])
    (hunmarked : hasChar '@' path = false) (hv : s.catalog.tableAlong? s.root (splitText '.' path) = some v)
    (h : (s.filterTarget path).2 = .ok t) :
    s.filterTarget path = (s.addJoins (s.trace (membershipPath path)).1, .ok t) ∧
      (s.trace (membershipPath path)).2 = .ok t ∧ ∃ l, t = ⟨Expr.col l v.value, v.type, .collection⟩ ∧
        s.Shows (s.trace (membershipPath path)).1 (splitText '.' path) l v :=
  resolveMarked_shows (by decide) (fun hmarker hlast => parseMarker_membership _ hmarker hlast) hfields hunmarked hv h

theorem readTarget_shows {path : String} {v : ValueTable} {t : Term} (hfields : s.fields = [])
    (hunmarked : hasChar '@' path = false) (hv : s.catalog.tableAlong? s.root (splitText '.' path) = some v)
    (h : (s.readTarget path).2 = .ok t) :
    s.readTarget path = (s.addJoins (s.trace (sharedPath path)).1, .ok t) ∧
      (s.trace (sharedPath path)).2 = .ok t ∧ ∃ l, t = ⟨Expr.col l v.value, v.type, .collection⟩ ∧
        s.Shows (s.trace (sharedPath path)).1 (splitText '.' path) l v :=
  resolveMarked_shows (by decide) (fun hmarker hlast => parseMarker_shared _ hmarker hlast) hfields hunmarked hv h

end Scope
end PageQuery
