import PageQuery.Proofs.Held
import PageQuery.Proofs.Keys
/-!
# The row extended by its relatives

The names of a path lead along relations from a root row to other rows.  The key of a join is such names, so a join
stands for what they lead to: its row matches, in the table joined, the row that its owner stands for.  Where no
relation is to-many and identities tell rows apart, one row matches at most; then the joins of a scope, however many
paths share them, extend each root row in just one way: by its relatives, and by NULLs where it has none.
-/
namespace PageQuery

variable {d : Dialect} {db : Store}

/-- The row that relations lead to from a row of an entity, the first where there are several; all NULL where they lead
to none. -/
def Store.relative (d : Dialect) (db : Store) (c : Catalog) : Entity → List String → Row → Row
  | _, [], r => r
  | e, name :: rest, r =>
    match (e.lookup? name).bind fun a => (db.related d c e a r).head? with
    | none => nullRow
    | some x => db.relative d c x.1 rest x.2

theorem relative_nullRow (c : Catalog) (e : Entity) (names : List String) :
    db.relative d c e names nullRow = nullRow := by
  cases names with
  | nil => rfl
  | cons name rest =>
    unfold Store.relative
    cases e.lookup? name with
    | none => rfl
    | some a => simp [related_nullRow]

namespace Scope
variable {s : Scope}

def relative (s : Scope) (d : Dialect) (db : Store) (r : Row) (j : KeyedJoin) : Row :=
  db.relative d s.catalog s.root (splitText '.' j.key) r

def extended (s : Scope) (d : Dialect) (db : Store) (r : Row) : Tuple :=
  (s.label, r) :: s.joins.map fun j => (j.join.label, s.relative d db r j)

/-! ## Joins and names -/

theorem step_relative {path segment : String} {p q : Position} {j : KeyedJoin}
    (h : s.step path p segment = .ok (j, q)) (rest : List String) (d : Dialect) (db : Store) (r : Row) :
    db.relative d s.catalog p.entity (segment :: rest) r = db.relative d s.catalog q.entity rest
      ((db.matching d j.join.table j.join.column (r j.join.owner.name)).headD nullRow) := by
  obtain ⟨-, -, a, ha, -, hrelated⟩ := step_related h
  rw [Store.relative, ha]
  simp only [Option.bind_some, hrelated]
  cases db.matching d j.join.table j.join.column (r j.join.owner.name) with
  | nil => exact (relative_nullRow s.catalog q.entity rest).symm
  | cons t ts => rfl

def Leads (s : Scope) (j : KeyedJoin) : Prop :=
  ∃ owner : List String,
    (owner = [] ∧ j.join.owner.source = s.label ∨
      ∃ k ∈ s.joins, k.join.label = j.join.owner.source ∧ splitText '.' k.key = owner) ∧
    ∀ (d : Dialect) (db : Store) (r : Row), s.relative d db r j = (db.matching d j.join.table j.join.column
      (db.relative d s.catalog s.root owner r j.join.owner.name)).headD nullRow

/-- The joins of a scope are labelled by their keys, and those along relations lead where their keys do.  Only the joins
of collections, which are to-many, may stand for something else. -/
structure Led (s : Scope) : Prop where
  labelled : ∀ j ∈ s.joins, j.join.label = joinLabel s.label j.key
  leads : ∀ j ∈ s.joins, j.join.toMany = true ∨ s.Leads j

theorem Led.addJoin (hs : s.Led) {j : KeyedJoin} (hlabel : j.join.label = joinLabel s.label j.key)
    (hj : j.join.toMany = true ∨ (s.addJoin j).Leads j) : (s.addJoin j).Led := by
  by_cases hkey : j.key ∈ s.joins.map KeyedJoin.key
  · rw [addJoin_of_mem hkey]
    exact hs
  · rw [addJoin_of_notMem hkey] at hj ⊢
    refine ⟨fun k hk => ?_, fun k hk => ?_⟩
    · rcases List.mem_append.1 hk with hk | hk
      · exact hs.labelled k hk
      · exact List.mem_singleton.1 hk ▸ hlabel
    · rcases List.mem_append.1 hk with hk | hk
      · refine (hs.leads k hk).imp_right ?_
        rintro ⟨owner, howner, hrelative⟩
        refine ⟨owner, howner.imp_right ?_, hrelative⟩
        rintro ⟨i, hi, hi'⟩
        exact ⟨i, List.mem_append_left _ hi, hi'⟩
      · exact List.mem_singleton.1 hk ▸ hj

/-- A walk stands where names have led it: at the root, or at the join with their key. -/
structure Stands (s : Scope) (p : Position) (names : List String) : Prop where
  key : p.key = joinText "." names
  plain : ∀ n ∈ names, n ≠ "" ∧ '.' ∉ n.toList
  relative : ∀ (rest : List String) (d : Dialect) (db : Store) (r : Row),
    db.relative d s.catalog s.root (names ++ rest) r =
      db.relative d s.catalog p.entity rest (db.relative d s.catalog s.root names r)
  label : names = [] ∧ p.label = s.label ∨ names ≠ [] ∧ ∃ k ∈ s.joins, k.join.label = p.label ∧ k.key = p.key

theorem splitText_key {names : List String} (hne : names ≠ []) (hplain : ∀ n ∈ names, n ≠ "" ∧ '.' ∉ n.toList) :
    splitText '.' (joinText "." names) = names := splitText_joinText rfl hne fun n hn => (hplain n hn).2

theorem Stands.step (hs : s.Led) {path segment : String} {p q : Position} {names : List String} {j : KeyedJoin}
    (hp : s.Stands p names) (hsegment : segment ≠ "" ∧ '.' ∉ segment.toList)
    (h : s.step path p segment = .ok (j, q)) :
    (s.addJoin j).Led ∧ (s.addJoin j).Stands q (names ++ [segment]) := by
  obtain ⟨hmade, hlabel⟩ := step_made h
  have hplain : ∀ n ∈ names ++ [segment], n ≠ "" ∧ '.' ∉ n.toList := fun n hn => by
    rcases List.mem_append.1 hn with hn | hn
    · exact hp.plain n hn
    · exact List.mem_singleton.1 hn ▸ hsegment
  have hkeys : j.key = q.key ∧ q.key = joinText "." (names ++ [segment]) := by
    have hextended : extendKey p.key segment = joinText "." (names ++ [segment]) := by
      rw [hp.key, extendKey_joinText fun n hn => (hp.plain n hn).1]
    obtain ⟨a, target, e, -, -, rfl, ⟨key, -, rfl⟩ | ⟨column, -, rfl⟩⟩ := step_cases h <;> exact ⟨rfl, hextended⟩
  have hjoins : ∀ k ∈ s.joins, k ∈ (s.addJoin j).joins := (prefix_addJoins s [j]).subset
  have hcatalog : (s.addJoin j).catalog = s.catalog := catalog_addJoins s [j]
  have hroot : (s.addJoin j).root = s.root := root_addJoins s [j]
  have hrootLabel : (s.addJoin j).label = s.label := label_addJoins s [j]
  have hrelative : ∀ (rest : List String) (d : Dialect) (db : Store) (r : Row),
      db.relative d s.catalog s.root (names ++ segment :: rest) r = db.relative d s.catalog q.entity rest
        ((db.matching d j.join.table j.join.column
          (db.relative d s.catalog s.root names r j.join.owner.name)).headD nullRow) := fun rest d db r => by
    rw [hp.relative, step_relative h]
  have hled : (s.addJoin j).Led := by
    refine hs.addJoin hmade.label (.inr ⟨names, ?_, fun d db r => ?_⟩)
    · rw [(step_related h).2.1, hrootLabel]
      refine hp.label.imp_right ?_
      rintro ⟨hne, k, hk, hklabel, hkkey⟩
      exact ⟨k, hjoins k hk, hklabel, by rw [hkkey, hp.key, splitText_key hne hp.plain]⟩
    · rw [Scope.relative, hcatalog, hroot, hkeys.1, hkeys.2, splitText_key (by simp) hplain, hrelative]
      rfl
  refine ⟨hled, hkeys.2, hplain, fun rest d db r => ?_, .inr ⟨by simp, ?_⟩⟩
  · rw [hcatalog, hroot, List.append_assoc, List.singleton_append, hrelative, hrelative]
    rfl
  · -- the join that has the key, be it this one or one that was there, has the label of the key
    have hmem : j.key ∈ (s.addJoins [j]).joins.map KeyedJoin.key := key_mem_addJoins List.mem_cons_self
    obtain ⟨k, hk, hkey⟩ := List.mem_map.1 hmem
    refine ⟨k, hk, ?_, hkey.trans hkeys.1⟩
    rw [hlabel, hmade.label, ← hkey, ← hrootLabel]
    exact hled.labelled k hk

theorem Led.addWalk (path : String) : ∀ {segments names : List String} {p : Position} {s : Scope}, s.Led →
    s.Stands p names → (∀ x ∈ segments, x ≠ "" ∧ '.' ∉ x.toList) → (s.addJoins (s.walk path p segments).1).Led
  | [], _, _, _, hs, _, _ => hs
  | segment :: rest, names, p, s, hs, hp, hsegments => by
    simp only [walk]
    cases hstep : s.step path p segment with
    | error e => exact hs
    | ok jq =>
      obtain ⟨j, q⟩ := jq
      obtain ⟨hs', hq⟩ := hp.step hs (hsegments segment List.mem_cons_self) hstep
      have hrest := Led.addWalk path hs' hq fun x hx => hsegments x (List.mem_cons_of_mem segment hx)
      have hwalk : (s.addJoin j).walk path q rest = s.walk path q rest := by
        have hbase : (s.addJoin j).base = s.base := base_addJoins s [j]
        rw [← walk_base, hbase, walk_base]
      rw [hwalk] at hrest
      exact hrest

/-- **A path** leaves the joins of a scope leading where their keys do. -/
theorem Led.addPath (hs : s.Led) (path : String) : (s.addJoins (s.trace path).1).Led := by
  unfold trace
  cases hparse : FieldPath.parse path with
  | error e => exact hs
  | ok segments =>
    obtain ⟨hsplit, hparents⟩ := FieldPath.parse_ok hparse
    have hplain : ∀ x ∈ segments.parents, x ≠ "" ∧ '.' ∉ x.toList := fun x hx =>
      ⟨hparents x hx, fun hdot => (mem_of_mem_splitText (hsplit ▸ List.mem_append_left _ hx) hdot).2 rfl⟩
    have hstart : s.Stands s.start [] :=
      ⟨rfl, fun n hn => (List.not_mem_nil hn).elim, fun _ _ _ _ => rfl, .inl ⟨rfl, rfl⟩⟩
    have hwalked := Led.addWalk path hs hstart hplain
    simp only
    generalize s.walk path s.start segments.parents = walked at hwalked
    obtain ⟨js, e | p⟩ := walked
    · exact hwalked
    · simp only
      cases hleaf : s.leaf path p segments.last with
      | error e => exact hwalked
      | ok jt =>
        obtain ⟨j, t⟩ := jt
        have hadded : s.addJoins (js ++ j.toList) = (s.addJoins js).addJoins j.toList := List.foldl_append
        simp only [hadded]
        obtain ⟨name, marker, a, -, -, ⟨-, rfl, -⟩ | ⟨-, v, key, -, -, rfl, -⟩⟩ := leaf_cases hleaf
        · exact hwalked
        · refine hwalked.addJoin ?_ (.inl rfl)
          rw [label_addJoins]
          rfl

/-- **The joins of a scope along relations lead where their keys do**, whatever was resolved in it. -/
theorem Laid.led (hs : s.Laid) : s.Led := by
  obtain ⟨paths, hjoins⟩ := hs
  have hpaths : ∀ (paths : List String) {t : Scope}, t.Led → (t.addPaths paths).Led := by
    intro paths
    induction paths with
    | nil => exact fun ht => ht
    | cons path rest ih => exact fun ht => ih (ht.addPath path)
  have hbase : s.base.Led := ⟨fun j hj => (List.not_mem_nil hj).elim, fun j hj => (List.not_mem_nil hj).elim⟩
  have hled := hpaths paths hbase
  have hcatalog : (s.base.addPaths paths).catalog = s.catalog := catalog_addPaths s.base paths
  have hlabel : (s.base.addPaths paths).label = s.label := label_addPaths s.base paths
  have hroot : (s.base.addPaths paths).root = s.root := by
    have hbase := congrArg Scope.root (base_addPaths s.base paths)
    exact hbase
  refine ⟨fun j hj => ?_, fun j hj => ?_⟩
  · rw [hjoins] at hj
    rw [hled.labelled j hj, hlabel]
  · rw [hjoins] at hj
    refine (hled.leads j hj).imp_right ?_
    rintro ⟨owner, howner, hrelative⟩
    simp only [Scope.relative, hcatalog, hroot, hlabel, ← hjoins] at howner hrelative
    exact ⟨owner, howner, hrelative⟩

/-! ## The one joined row of a root row -/

theorem lookup_labelled {f : KeyedJoin → Row} {k : KeyedJoin} : ∀ {js : List KeyedJoin},
    (js.map fun j => j.join.label).Nodup → k ∈ js →
      (js.map fun j => (j.join.label, f j)).lookup k.join.label = some (f k)
  | j :: js, hnodup, hk => by
    obtain ⟨hnew, hrest⟩ := List.nodup_cons.1 hnodup
    rw [List.map_cons, List.lookup_cons]
    rcases List.mem_cons.1 hk with rfl | hk
    · rw [beq_self_eq_true]
    · have hne : (k.join.label == j.join.label) = false :=
        beq_eq_false_iff_ne.2 fun heq => hnew (List.mem_map.2 ⟨k, hk, heq⟩)
      rw [hne]
      exact lookup_labelled hrest hk

theorem Laid.mem_before (hs : s.Laid) (hnodup : (s.label :: s.joinList.map Join.label).Nodup)
    {pre post : List KeyedJoin} {j k : KeyedJoin} (hjoins : s.joins = pre ++ j :: post) (hk : k ∈ s.joins)
    (howner : k.join.label = j.join.owner.source) : k ∈ pre := by
  have hlabels : s.joinList.map Join.label = s.joins.map fun k => k.join.label := List.map_map
  rw [hlabels] at hnodup
  obtain ⟨hfresh, hapart⟩ := List.nodup_cons.1 hnodup
  have horder := hs.ordered.inOrder
  rw [joinList, hjoins, List.map_append, List.map_cons] at horder
  have hbefore := horder.owner_mem_before
  rw [← howner] at hbefore
  rcases List.mem_append.1 hbefore with hself | hmem
  · exact absurd (List.mem_map.2 ⟨k, hk, List.mem_singleton.1 hself⟩) hfresh
  · rw [List.map_map] at hmem
    obtain ⟨i, hi, hlabel⟩ := List.mem_map.1 hmem
    have hi' : i ∈ s.joins := by
      rw [hjoins]
      exact List.mem_append_left _ hi
    exact List.inj_on_of_nodup_map hapart hi' hk hlabel ▸ hi

section
variable (hs : s.Laid) (hone : s.hasToManyJoins = false) (hcatalog : ∀ e ∈ s.catalog.entities, db.Identifies d e)
  (hnodup : (s.label :: s.joinList.map Join.label).Nodup)
include hs hone hcatalog hnodup

/-- One more join adds the relative that it stands for, and nothing else. -/
theorem Laid.extend_eq {pre post : List KeyedJoin} {j : KeyedJoin} (hjoins : s.joins = pre ++ j :: post) (row : Row) :
    Tuple.extend d db ((s.label, row) :: pre.map fun k => (k.join.label, s.relative d db row k)) j.join =
      [(s.label, row) :: (pre ++ [j]).map fun k => (k.join.label, s.relative d db row k)] := by
  have hj : j ∈ s.joins := by
    rw [hjoins]
    exact List.mem_append_right _ List.mem_cons_self
  have htoOne : j.join.toMany = false := by
    unfold hasToManyJoins at hone
    simpa using List.any_eq_false.1 hone j hj
  obtain ⟨owner, howner, hrelative⟩ := (hs.led.leads j hj).resolve_left (by rw [htoOne]; exact Bool.false_ne_true)
  -- the owner is in sight, with the row that it stands for
  have hcell : Tuple.cell ((s.label, row) :: pre.map fun k => (k.join.label, s.relative d db row k)) j.join.owner =
      db.relative d s.catalog s.root owner row j.join.owner.name := by
    unfold Tuple.cell
    obtain ⟨rfl, hsource⟩ | ⟨k, hk, hsource, rfl⟩ := howner
    · rw [hsource, List.lookup_cons, beq_self_eq_true]
      rfl
    · have hkpre := hs.mem_before hnodup hjoins hk hsource
      have hlabels : s.joinList.map Join.label = s.joins.map fun k => k.join.label := List.map_map
      rw [hlabels] at hnodup
      obtain ⟨hfresh, hapart⟩ := List.nodup_cons.1 hnodup
      have hne : (k.join.label == s.label) = false :=
        beq_eq_false_iff_ne.2 fun heq => hfresh (List.mem_map.2 ⟨k, hk, heq⟩)
      have hpre : (pre.map fun k => k.join.label).Nodup := by
        rw [hjoins, List.map_append] at hapart
        exact (List.nodup_append.1 hapart).1
      rw [← hsource, List.lookup_cons, hne, lookup_labelled hpre hkpre]
      rfl
  have hkeyed := hs.keyed hcatalog hone j.join (List.mem_map_of_mem hj)
  have hlength := length_extend (w := (s.label, row) :: pre.map fun k => (k.join.label, s.relative d db row k)) hkeyed
  rw [List.map_append, List.map_singleton, hrelative, Store.matching]
  unfold Tuple.extend at hlength ⊢
  rw [hcell] at hlength ⊢
  cases hmatch : (db.rows j.join.table).filter fun r => d.equal (r j.join.column)
      (db.relative d s.catalog s.root owner row j.join.owner.name) with
  | nil => rfl
  | cons t ts =>
    rw [hmatch] at hlength
    cases ts with
    | nil => rfl
    | cons u us => simp at hlength

/-- **A root row has one joined row: itself extended by its relatives.** -/
theorem Laid.joined_eq (row : Row) : Tuple.joined d db s.joinList [(s.label, row)] = [s.extended d db row] := by
  have hfrom : ∀ post pre : List KeyedJoin, s.joins = pre ++ post →
      Tuple.joined d db (post.map KeyedJoin.join)
        ((s.label, row) :: pre.map fun k => (k.join.label, s.relative d db row k)) = [s.extended d db row] := by
    intro post
    induction post with
    | nil =>
      intro pre hjoins
      rw [List.append_nil] at hjoins
      rw [← hjoins]
      rfl
    | cons j post ih =>
      intro pre hjoins
      rw [List.map_cons, Tuple.joined, hs.extend_eq hone hcatalog hnodup hjoins row, List.flatMap_singleton]
      exact ih (pre ++ [j]) (by rw [hjoins, List.append_assoc]; rfl)
  exact hfrom s.joins [] rfl

theorem Laid.tuples_eq : db.tuples d s.root.table s.label s.joinList =
    (db.rows s.root.table).map (s.extended d db) := by
  unfold Store.tuples
  rw [List.flatMap_congr fun row _ => hs.joined_eq hone hcatalog hnodup row]
  exact List.map_eq_flatMap.symm

end

end Scope

/-! ## A small firm

Ada's team is Red in Oslo, Bob has none, and the third worker has no name but the team Blue, which has no site. -/

namespace Sample

def worker : Entity :=
  .ofDeclarations "worker" "workers"
    [.scalar "name" .text, .toOne "team" "team" "team_id", .toMany "tasks" "task" "worker_id"]

def team : Entity := .ofDeclarations "team" "teams" [.scalar "title" .text, .toOne "site" "site" "site_id"]

def site : Entity := .ofDeclarations "site" "sites" [.scalar "city" .text]

def task : Entity := .ofDeclarations "task" "tasks" [.scalar "hours" .integer]

def firm : Catalog := .ofList [worker, team, site, task]

def firmStore : Store where
  rows
    | "workers" =>
      [row [("id", .int64 1), ("name", .text "Ada"), ("team_id", .int64 10)],
        row [("id", .int64 2), ("name", .text "Bob")], row [("id", .int64 3), ("team_id", .int64 11)]]
    | "teams" =>
      [row [("id", .int64 10), ("title", .text "Red"), ("site_id", .int64 100)],
        row [("id", .int64 11), ("title", .text "Blue")]]
    | "sites" => [row [("id", .int64 100), ("city", .text "Oslo")]]
    | "tasks" =>
      [row [("id", .int64 20), ("worker_id", .int64 1), ("hours", .int64 3)],
        row [("id", .int64 21), ("worker_id", .int64 1), ("hours", .int64 4)]]
    | _ => []

def adaInOslo : Request :=
  { Request.all with
    ordering := [⟨"team.title", true⟩]
    required := [⟨"team.site.city", .value (.text "Oslo")⟩]
    optional := [⟨"name", .value (.text "Ada")⟩] }

def taskCount : Recipe := ⟨[.identity (some "id"), .measure .count (some "n") "tasks"], false⟩

def busyOr (field : String) (c : Criterion) : Request :=
  { Request.all with optional := [⟨"n", .numeric (.above (.integer 1))⟩, ⟨field, c⟩] }

end Sample
end PageQuery
