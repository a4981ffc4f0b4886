import PageQuery.Proofs.Remembered
/-!
# The language of paths

Which paths mean something, and what is wrong with the others, said without walking: a path is names with dots between
them; all but the last lead along relations from entity to entity, and the last names an attribute of the entity reached,
with a marker perhaps if that has many values.  What is wrong with a path is what is wrong at its first bad name.  A
scope answers every path as that says, whatever it was asked before.
-/
namespace PageQuery

/-! ## Names and markers -/

def Marker.write : Marker → String → String
  | .plain, name => name
  | .shared, name => "@" ++ name
  | .membership, name => "@" ++ name ++ "@"

/-- The segment is a name, alone or marked. -/
structure Marker.Spells (m : Marker) (name segment : String) : Prop where
  nonempty : name ≠ ""
  unmarked : '@' ∉ name.toList
  written : segment = m.write name

theorem parseMarker_of_spells {m : Marker} {name segment : String} (h : m.Spells name segment) (path : String) :
    parseMarker path segment = .ok (name, m) := by
  obtain ⟨hne, hplain, rfl⟩ := h
  have hparsed := parseMarker_plain hne hplain path
  cases m with
  | plain => exact hparsed
  | shared =>
    have hshared := parseMarker_shared path hparsed hplain
    rwa [String.append_empty] at hshared
  | membership => exact parseMarker_membership path hparsed hplain

theorem spells_of_parseMarker {path segment name : String} {m : Marker}
    (h : parseMarker path segment = .ok (name, m)) : m.Spells name segment := by
  have hpeeled : ∀ {cs : List Char} {marker : Marker},
      (if (cs.isEmpty || cs.contains '@') = true then (.error (.invalidPath path .malformedMarker) :
        Except Failure (String × Marker)) else .ok (String.ofList cs, marker)) = .ok (name, m) →
      name.toList = cs ∧ m = marker ∧ name ≠ "" ∧ '@' ∉ name.toList := fun {cs marker} h => by
    rcases ite_eq_iff.1 h with ⟨-, herror⟩ | ⟨hcond, hok⟩
    · cases herror
    · cases hok
      rw [String.toList_ofList]
      refine ⟨rfl, rfl, fun hempty => hcond ?_, fun hmem => hcond ?_⟩
      · have hnil := congrArg String.toList hempty
        rw [String.toList_ofList] at hnil
        rw [hnil]
        rfl
      · rw [List.contains_iff_mem.2 hmem, Bool.or_true]
  unfold parseMarker at h
  simp only at h
  split at h
  · next rest hsegment =>
    by_cases hlast : rest.getLast? = some '@'
    · rw [if_pos hlast] at h
      obtain ⟨hname, rfl, hne, hplain⟩ := hpeeled h
      obtain ⟨cs, rfl⟩ := List.getLast?_eq_some_iff.1 hlast
      refine ⟨hne, hplain, String.toList_inj.1 ?_⟩
      simpa [Marker.write, hname] using hsegment
    · rw [if_neg hlast] at h
      obtain ⟨hname, rfl, hne, hplain⟩ := hpeeled h
      refine ⟨hne, hplain, String.toList_inj.1 ?_⟩
      simpa [Marker.write, hname] using hsegment
  · obtain ⟨hname, rfl, hne, hplain⟩ := hpeeled h
    exact ⟨hne, hplain, String.toList_inj.1 hname.symm⟩

theorem parseMarker_error {path segment : String} (h : ∀ m name, ¬Marker.Spells m name segment) :
    parseMarker path segment = .error (.invalidPath path .malformedMarker) := by
  cases hparse : parseMarker path segment with
  | ok nm => exact absurd (spells_of_parseMarker hparse) (h nm.2 nm.1)
  | error e =>
    unfold parseMarker at hparse
    rcases ite_eq_iff.1 hparse with ⟨-, herror⟩ | ⟨-, hok⟩
    · exact herror.symm
    · cases hok

/-! ## What is right and wrong at each name -/

namespace Catalog

/-- Names lead from an entity to another: each is that of a relation, to a registered entity where the next one is. -/
inductive Reaches (c : Catalog) : Entity → List String → Entity → Prop
  | here (e : Entity) : Reaches c e [] e
  | along {e next last : Entity} {name : String} {rest : List String} {a : Attribute} {target : String}
      (hname : name.toList.head? ≠ some '@') (ha : e.lookup? name = some a) (ht : targetOf a.storage = some target)
      (he : c.entity? target = some next) (hrest : Reaches c next rest last) : Reaches c e (name :: rest) last

/-- A name does not lead on from an entity, and why. -/
inductive Stops (c : Catalog) (path : String) (e : Entity) (name : String) : Failure → Prop
  | marked (hname : name.toList.head? = some '@') : Stops c path e name (.invalidPath path .earlyMarker)
  | unknown (hname : name.toList.head? ≠ some '@') (ha : e.lookup? name = none) :
      Stops c path e name (.unknownAttribute e.name name)
  | unrelated {a : Attribute} (hname : name.toList.head? ≠ some '@') (ha : e.lookup? name = some a)
      (ht : targetOf a.storage = none) : Stops c path e name (.invalidPath path (.notRelation name))
  | dangling {a : Attribute} {target : String} (hname : name.toList.head? ≠ some '@') (ha : e.lookup? name = some a)
      (ht : targetOf a.storage = some target) (he : c.entity? target = none) :
      Stops c path e name (.unknownEntity target)

/-- A path may end at an entity with a segment that names an attribute: a marker is for many values only, and the entity
that a relation leads to is registered. -/
structure Takes (c : Catalog) (e : Entity) (segment : String) (m : Marker) (a : Attribute) : Prop where
  named : ∃ name, m.Spells name segment ∧ e.lookup? name = some a
  markable : m = .plain ∨ a.isCollection = true
  registered : ∀ target, targetOf a.storage = some target → (c.entity? target).isSome = true

/-- A path may not end at an entity with a segment, and why. -/
inductive Rejects (c : Catalog) (path : String) (e : Entity) (segment : String) : Failure → Prop
  | malformed (hmarker : ∀ m name, ¬Marker.Spells m name segment) :
      Rejects c path e segment (.invalidPath path .malformedMarker)
  | unknown {m : Marker} {name : String} (hname : m.Spells name segment) (ha : e.lookup? name = none) :
      Rejects c path e segment (.unknownAttribute e.name name)
  | marked {m : Marker} {name : String} {a : Attribute} (hname : m.Spells name segment)
      (ha : e.lookup? name = some a) (hm : m ≠ .plain) (hone : a.isCollection = false) :
      Rejects c path e segment (.invalidPath path (.notCollection name))
  | dangling {m : Marker} {name : String} {a : Attribute} {target : String} (hname : m.Spells name segment)
      (ha : e.lookup? name = some a) (hm : m = .plain ∨ a.isCollection = true) (ht : targetOf a.storage = some target)
      (he : c.entity? target = none) : Rejects c path e segment (.unknownEntity target)

/-- What a path is at a root: the attribute that it ends in, or what is wrong with it. -/
inductive Judges (c : Catalog) (root : Entity) (path : String) : Except Failure Attribute → Prop
  | empty (h : "" ∈ splitText '.' path) : Judges c root path (.error (.invalidPath path .emptySegment))
  | stopped {before after : List String} {name : String} {e : Entity} {f : Failure} (hfull : "" ∉ splitText '.' path)
      (hsplit : splitText '.' path = before ++ name :: after) (hafter : after ≠ []) (hreaches : c.Reaches root before e)
      (hstops : c.Stops path e name f) : Judges c root path (.error f)
  | rejected {parents : List String} {last : String} {e : Entity} {f : Failure} (hfull : "" ∉ splitText '.' path)
      (hsplit : splitText '.' path = parents ++ [last]) (hreaches : c.Reaches root parents e)
      (hrejects : c.Rejects path e last f) : Judges c root path (.error f)
  | taken {parents : List String} {last : String} {e : Entity} {m : Marker} {a : Attribute}
      (hfull : "" ∉ splitText '.' path) (hsplit : splitText '.' path = parents ++ [last])
      (hreaches : c.Reaches root parents e) (htakes : c.Takes e last m a) : Judges c root path (.ok a)

variable {c : Catalog} {path : String}

theorem stops_or_leads (path : String) (e : Entity) (name : String) :
    (∃ f, c.Stops path e name f) ∨ ∃ a target next, name.toList.head? ≠ some '@' ∧ e.lookup? name = some a ∧
      targetOf a.storage = some target ∧ c.entity? target = some next := by
  by_cases hname : name.toList.head? = some '@'
  · exact .inl ⟨_, .marked hname⟩
  · cases ha : e.lookup? name with
    | none => exact .inl ⟨_, .unknown hname ha⟩
    | some a =>
      cases ht : targetOf a.storage with
      | none => exact .inl ⟨_, .unrelated hname ha ht⟩
      | some target =>
        cases he : c.entity? target with
        | none => exact .inl ⟨_, .dangling hname ha ht he⟩
        | some next => exact .inr ⟨a, target, next, hname, rfl, ht, he⟩

theorem reaches_or_stops (path : String) : ∀ (names : List String) (e : Entity), (∃ last, c.Reaches e names last) ∨
    ∃ before name after last f, names = before ++ name :: after ∧ c.Reaches e before last ∧ c.Stops path last name f
  | [], e => .inl ⟨e, .here e⟩
  | name :: rest, e => by
    rcases stops_or_leads (c := c) path e name with ⟨f, hstops⟩ | ⟨a, target, next, hname, ha, ht, he⟩
    · exact .inr ⟨[], name, rest, e, f, rfl, .here e, hstops⟩
    · rcases reaches_or_stops path rest next with ⟨last, hrest⟩ | ⟨before, bad, after, last, f, rfl, hbefore, hstops⟩
      · exact .inl ⟨last, .along hname ha ht he hrest⟩
      · exact .inr ⟨name :: before, bad, after, last, f, rfl, .along hname ha ht he hbefore, hstops⟩

theorem takes_or_rejects (path : String) (e : Entity) (segment : String) :
    (∃ m a, c.Takes e segment m a) ∨ ∃ f, c.Rejects path e segment f := by
  by_cases hspelled : ∃ m name, Marker.Spells m name segment
  · obtain ⟨m, name, hname⟩ := hspelled
    cases ha : e.lookup? name with
    | none => exact .inr ⟨_, .unknown hname ha⟩
    | some a =>
      by_cases hm : m = .plain ∨ a.isCollection = true
      · by_cases hdangling : ∃ target, targetOf a.storage = some target ∧ c.entity? target = none
        · obtain ⟨target, ht, he⟩ := hdangling
          exact .inr ⟨_, .dangling hname ha hm ht he⟩
        · refine .inl ⟨m, a, ⟨name, hname, ha⟩, hm, fun target ht => Option.isSome_iff_ne_none.2 fun he => ?_⟩
          exact hdangling ⟨target, ht, he⟩
      · rw [not_or, Bool.not_eq_true] at hm
        exact .inr ⟨_, .marked hname ha hm.1 hm.2⟩
  · exact .inr ⟨_, .malformed fun m name hname => hspelled ⟨m, name, hname⟩⟩

theorem judges_total (c : Catalog) (root : Entity) (path : String) : ∃ x, c.Judges root path x := by
  by_cases hfull : "" ∈ splitText '.' path
  · exact ⟨_, .empty hfull⟩
  · have hne : splitText '.' path ≠ [] := fun hnil => splitChars_ne_nil '.' path.toList (List.map_eq_nil_iff.1 hnil)
    have hsplit := (List.dropLast_concat_getLast hne).symm
    rcases reaches_or_stops (c := c) path (splitText '.' path).dropLast root with
      ⟨e, hreaches⟩ | ⟨before, name, after, e, f, hparents, hreaches, hstops⟩
    · rcases takes_or_rejects (c := c) path e ((splitText '.' path).getLast hne) with ⟨m, a, htakes⟩ | ⟨f, hrejects⟩
      · exact ⟨_, .taken hfull hsplit hreaches htakes⟩
      · exact ⟨_, .rejected hfull hsplit hreaches hrejects⟩
    · have hsplit' : splitText '.' path = before ++ name :: (after ++ [(splitText '.' path).getLast hne]) := by
        rw [← List.cons_append, ← List.append_assoc, ← hparents]
        exact hsplit
      exact ⟨_, .stopped hfull hsplit' (by simp) hreaches hstops⟩

end Catalog

/-! ## What a scope makes of it -/

theorem FieldPath.parse_of_empty {path : String} (h : "" ∈ splitText '.' path) :
    FieldPath.parse path = .error (.invalidPath path .emptySegment) :=
  if_pos (List.any_eq_true.2 ⟨"", h, rfl⟩)

theorem FieldPath.parse_of_split {path last : String} {parents : List String} (hfull : "" ∉ splitText '.' path)
    (hsplit : splitText '.' path = parents ++ [last]) : FieldPath.parse path = .ok ⟨parents, last⟩ := by
  have hany : ¬(splitText '.' path).any (fun s => s.isEmpty) = true := fun hany => by
    obtain ⟨name, hname, hempty⟩ := List.any_eq_true.1 hany
    exact hfull (String.isEmpty_iff.1 hempty ▸ hname)
  unfold FieldPath.parse
  simp only
  rw [if_neg hany, hsplit, List.dropLast_concat, List.getLastD_concat]

namespace Scope
variable {s : Scope} {path : String}

theorem step_of_stops {p : Position} {name : String} {f : Failure} (h : s.catalog.Stops path p.entity name f) :
    s.step path p name = .error f := by
  unfold step
  cases h with
  | marked hname => rw [if_pos hname]
  | unknown hname ha =>
    rw [if_neg hname, Entity.lookup_of_none ha]
    rfl
  | @unrelated a hname ha ht =>
    rw [if_neg hname, Entity.lookup_of_some ha]
    obtain ⟨called, type, storage⟩ := a
    cases storage with
    | column | collection => rfl
    | toOne | toMany => cases ht
  | @dangling a target hname ha ht he =>
    have hrequire := Catalog.require_of_none he
    rw [if_neg hname, Entity.lookup_of_some ha]
    obtain ⟨called, type, storage⟩ := a
    cases storage with
    | column | collection => cases ht
    | toOne | toMany =>
      cases ht
      simp only [bind, Except.bind, hrequire]

theorem step_of_leads (path : String) {p : Position} {name target : String} {a : Attribute} {next : Entity}
    (hname : name.toList.head? ≠ some '@') (ha : p.entity.lookup? name = some a)
    (ht : Catalog.targetOf a.storage = some target) (he : s.catalog.entity? target = some next) :
    ∃ j q, s.step path p name = .ok (j, q) ∧ q.entity = next := by
  have hrequire := Catalog.require_of_some he
  unfold step
  rw [if_neg hname, Entity.lookup_of_some ha]
  obtain ⟨called, type, storage⟩ := a
  cases storage with
  | column | collection => cases ht
  | toOne | toMany =>
    cases ht
    simp only [bind, Except.bind, hrequire]
    exact ⟨_, _, rfl, rfl⟩

theorem walk_of_reaches (path : String) {e last : Entity} {names : List String} (h : s.catalog.Reaches e names last) :
    ∀ {p : Position}, p.entity = e → ∃ q, (s.walk path p names).2 = .ok q ∧ q.entity = last := by
  induction h with
  | here e => exact fun {p} hp => ⟨p, rfl, hp⟩
  | along hname ha ht he _ ih =>
    intro p hp
    obtain ⟨j, q, hstep, hq⟩ := step_of_leads (s := s) path hname (hp ▸ ha) ht he
    obtain ⟨q', hwalk, hq'⟩ := ih hq
    simp only [walk, hstep]
    exact ⟨q', hwalk, hq'⟩

theorem walk_of_stops {e last : Entity} {before : List String} {name : String} {f : Failure}
    (h : s.catalog.Reaches e before last) (hstops : s.catalog.Stops path last name f) (after : List String) :
    ∀ {p : Position}, p.entity = e → (s.walk path p (before ++ name :: after)).2 = .error f := by
  induction h with
  | here e =>
    intro p hp
    simp only [List.nil_append, walk, step_of_stops (hp ▸ hstops)]
  | along hname ha ht he _ ih =>
    intro p hp
    obtain ⟨j, q, hstep, hq⟩ := step_of_leads (s := s) path hname (hp ▸ ha) ht he
    simp only [List.cons_append, walk, hstep]
    exact ih hstops hq

theorem leaf_of_rejects {p : Position} {segment : String} {f : Failure}
    (h : s.catalog.Rejects path p.entity segment f) : s.leaf path p segment = .error f := by
  unfold leaf
  cases h with
  | malformed hmarker =>
    rw [parseMarker_error hmarker]
    rfl
  | unknown hname ha =>
    rw [parseMarker_of_spells hname path]
    simp only [bind, Except.bind, Entity.lookup_of_none ha]
  | @marked m name a hname ha hm hone =>
    rw [parseMarker_of_spells hname path]
    simp only [bind, Except.bind, Entity.lookup_of_some ha]
    obtain ⟨called, type, storage⟩ := a
    cases storage with
    | column | toOne => cases m <;> first | exact absurd rfl hm | rfl
    | toMany | collection => cases hone
  | @dangling m name a target hname ha hm ht he =>
    rw [parseMarker_of_spells hname path]
    simp only [bind, Except.bind, Entity.lookup_of_some ha]
    have hrequire := Catalog.require_of_none he
    obtain ⟨called, type, storage⟩ := a
    cases storage with
    | column | collection => cases ht
    | toOne =>
      cases ht
      obtain rfl : m = .plain := hm.resolve_right Bool.false_ne_true
      simp only [hrequire]
    | toMany =>
      cases ht
      simp only [hrequire]

/-- A last name that may be there makes a term of a collection just if it is one, and otherwise no join. -/
theorem leaf_of_takes (path : String) {p : Position} {segment : String} {m : Marker} {a : Attribute}
    (h : s.catalog.Takes p.entity segment m a) : ∃ j t, s.leaf path p segment = .ok (j, t) ∧
      t.isCollection = a.isCollection ∧ (a.isCollection = false → j = none) := by
  obtain ⟨⟨name, hname, ha⟩, hm, hregistered⟩ := h
  unfold leaf
  rw [parseMarker_of_spells hname path]
  simp only [bind, Except.bind, Entity.lookup_of_some ha]
  obtain ⟨called, type, storage⟩ := a
  cases storage with
  | column c =>
    obtain rfl : m = .plain := hm.resolve_right Bool.false_ne_true
    exact ⟨_, _, rfl, rfl, fun _ => rfl⟩
  | toOne target key =>
    obtain rfl : m = .plain := hm.resolve_right Bool.false_ne_true
    obtain ⟨e, he⟩ := Option.isSome_iff_exists.1 (hregistered target rfl)
    simp only [Catalog.require_of_some he]
    exact ⟨_, _, rfl, rfl, fun _ => rfl⟩
  | toMany target column =>
    obtain ⟨e, he⟩ := Option.isSome_iff_exists.1 (hregistered target rfl)
    simp only [Catalog.require_of_some he]
    exact ⟨_, _, rfl, rfl, fun hone => by cases hone⟩
  | collection => exact ⟨_, _, rfl, rfl, fun hone => by cases hone⟩

/-- **A path with something wrong fails for that.** -/
theorem trace_of_error {f : Failure} (h : s.catalog.Judges s.root path (.error f)) : (s.trace path).2 = .error f := by
  unfold trace
  cases h with
  | empty hempty => rw [FieldPath.parse_of_empty hempty]
  | @stopped before after name e f hfull hsplit hafter hreaches hstops =>
    obtain ⟨init, last, rfl⟩ : ∃ init last, after = init ++ [last] :=
      ⟨after.dropLast, after.getLast hafter, (List.dropLast_concat_getLast hafter).symm⟩
    have hwalk := walk_of_stops (s := s) hreaches hstops init (p := s.start) rfl
    have hsplit' : splitText '.' path = (before ++ name :: init) ++ [last] := by simp [hsplit]
    rw [FieldPath.parse_of_split hfull hsplit']
    rcases hw : s.walk path s.start (before ++ name :: init) with ⟨js, x⟩
    rw [hw] at hwalk
    simp only [hw, show x = .error f from hwalk]
  | rejected hfull hsplit hreaches hrejects =>
    obtain ⟨q, hwalk, rfl⟩ := walk_of_reaches (s := s) path hreaches (p := s.start) rfl
    rw [FieldPath.parse_of_split hfull hsplit]
    simp only
    generalize s.walk path s.start _ = walked at hwalk
    obtain ⟨js, x⟩ := walked
    cases hwalk
    simp only [leaf_of_rejects hrejects]

/-- **A path with nothing wrong means a term**, and joins no more than its relations if its last name has one value. -/
theorem trace_of_taken {a : Attribute} (h : s.catalog.Judges s.root path (.ok a)) :
    ∃ t, (s.trace path).2 = .ok t ∧ t.isCollection = a.isCollection ∧ (a.isCollection = false →
      ∀ j ∈ (s.trace path).1, ∃ names, names <+: (splitText '.' path).dropLast ∧ names ≠ [] ∧
        j.key = joinText "." names) := by
  cases h with
  | @taken parents last e m a hfull hsplit hreaches htakes =>
    have hparse := FieldPath.parse_of_split hfull hsplit
    obtain ⟨q, hwalk, rfl⟩ := walk_of_reaches (s := s) path hreaches (p := s.start) rfl
    obtain ⟨j, t, hleaf, hcollection, hnone⟩ := leaf_of_takes path htakes
    have htrace : s.trace path = ((s.walk path s.start parents).1 ++ j.toList, .ok t) := by
      unfold trace
      rw [hparse]
      simp only
      generalize s.walk path s.start parents = walked at hwalk
      obtain ⟨js, x⟩ := walked
      cases hwalk
      simp only [hleaf]
    refine ⟨t, by rw [htrace], hcollection, fun hone k hk => ?_⟩
    rw [htrace, hnone hone, Option.toList_none, List.append_nil] at hk
    have hstart : s.start.key = joinText "." [] := rfl
    obtain ⟨hkeys, -⟩ := walk_named (s := s) path hstart (fun n hn => (List.not_mem_nil hn).elim)
      (FieldPath.parse_ok hparse).2 List.mem_cons_self
    obtain ⟨names, hprefix, hne, hkey, -⟩ := hkeys k hk
    rw [hsplit, List.dropLast_concat]
    exact ⟨names, hprefix, hne, hkey⟩

end Scope

/-- **The language of paths is exactly this.**  Whatever a scope without fields resolved before, and whatever of it the
scope remembers, a path fails with just what is wrong with it: an empty name; the first name before the last that is
marked, unknown, no relation or leads to no registered entity; or a last name that is malformed, unknown, marked without
many values, or a relation to no registered entity.  With nothing wrong it means a term, of a collection just if the last
attribute has many values; if that has one value, no join is added but those of its relations. -/
theorem path_language {r : RememberingScope} (hr : r.Sound) (hfields : r.scope.fields = []) (path : String) :
    (∀ f, (r.resolve path).2 = .error f ↔ r.scope.catalog.Judges r.scope.root path (.error f)) ∧
    (∀ t, (r.resolve path).2 = .ok t → ∃ a, r.scope.catalog.Judges r.scope.root path (.ok a)) ∧
    (∀ a, r.scope.catalog.Judges r.scope.root path (.ok a) → ∃ t, (r.resolve path).2 = .ok t ∧
      (t.origin = .collection ↔ a.isCollection = true) ∧
      (a.isCollection = false → ∀ j ∈ (r.resolve path).1.scope.joins, j ∈ r.scope.joins ∨
        ∃ names, names <+: (splitText '.' path).dropLast ∧ names ≠ [] ∧ j.key = joinText "." names)) ∧
    ((r.resolve path).1.scope, (r.resolve path).2) = r.scope.resolve path := by
  obtain ⟨-, hscope, hanswer⟩ := hr.resolve path
  have hresolve := Scope.resolve_of_field (Scope.field?_of_fields_eq_nil hfields path)
  rw [hscope, hanswer, hresolve]
  obtain ⟨x, hx⟩ := Catalog.judges_total r.scope.catalog r.scope.root path
  have hfails : ∀ f, r.scope.catalog.Judges r.scope.root path (.error f) → (r.scope.trace path).2 = .error f :=
    fun f => Scope.trace_of_error
  refine ⟨fun f => ⟨fun hf => ?_, hfails f⟩, fun t ht => ?_, fun a ha => ?_, rfl⟩
  · cases x with
    | error f' =>
      have hf' := hfails f' hx
      rw [show (r.scope.trace path).2 = .error f from hf] at hf'
      cases hf'
      exact hx
    | ok a =>
      obtain ⟨t, ht, -⟩ := Scope.trace_of_taken hx
      rw [show (r.scope.trace path).2 = .error f from hf] at ht
      cases ht
  · cases x with
    | error f =>
      have hf := hfails f hx
      rw [show (r.scope.trace path).2 = .ok t from ht] at hf
      cases hf
    | ok a => exact ⟨a, hx⟩
  · obtain ⟨t, ht, hcollection, hjoins⟩ := Scope.trace_of_taken ha
    refine ⟨t, ht, ?_, fun hone j hj => (Scope.mem_addJoins hj).imp_right (hjoins hone j)⟩
    rw [← hcollection, Term.isCollection, beq_iff_eq]

open Sample in
/-- After two paths, the amounts of orders take no marker, and their items may be marked. -/
theorem amounts_unmarked_items_marked :
    catalog.Judges person "orders.@amount@" (.error (.invalidPath "orders.@amount@" (.notCollection "amount"))) ∧
    catalog.Judges person "orders.nothing.@" (.error (.unknownAttribute "order" "nothing")) ∧
    (∃ a, catalog.Judges person "orders.@items@" (.ok a)) ∧
    (((RememberingScope.start (Scope.new catalog person "e")).resolveAll ["orders.@amount@", "orders.items"]).resolve
      "orders.@items@").2.isOk = true := by
  obtain ⟨hsound, hscope, -⟩ := (RememberingScope.sound_start (Scope.new catalog person "e")).resolveAll
    ["orders.@amount@", "orders.items"]
  have hlanguage := path_language hsound (by rw [hscope]; rfl)
  obtain ⟨t, ht, -⟩ := exists_ok (P := fun _ : Term => True)
    (x := (((RememberingScope.start (Scope.new catalog person "e")).resolveAll ["orders.@amount@", "orders.items"]).resolve
      "orders.@items@").2) (by decide +kernel)
  exact ⟨((hlanguage "orders.@amount@").1 _).1 (by decide +kernel),
    ((hlanguage "orders.nothing.@").1 _).1 (by decide +kernel), (hlanguage "orders.@items@").2.1 t ht, by rw [ht]; rfl⟩

end PageQuery
