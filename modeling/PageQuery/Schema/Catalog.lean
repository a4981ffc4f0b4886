import PageQuery.Schema.Entity
/-!
# The catalog of entities

Entities by name.  Registering a name again replaces the entity that had it.
-/
namespace PageQuery

/-- The registered entities, no two of one name. -/
structure Catalog where
  entities : List Entity
  distinct : entities.Pairwise fun a b => a.name ≠ b.name
  deriving Repr

namespace Catalog

def empty : Catalog := ⟨[], .nil⟩

theorem distinct_register (c : Catalog) (e : Entity) :
    (c.entities.filter (fun x => x.name != e.name) ++ [e]).Pairwise fun a b => a.name ≠ b.name := by
  refine List.pairwise_append.2
    ⟨c.distinct.filter _, List.pairwise_singleton _ e, fun a ha b hb => ?_⟩
  rw [List.mem_singleton.1 hb]
  simpa using (List.mem_filter.1 ha).2

def register (c : Catalog) (e : Entity) : Catalog :=
  ⟨c.entities.filter (fun x => x.name != e.name) ++ [e], c.distinct_register e⟩

def ofList (es : List Entity) : Catalog := es.foldl register empty

def entity? (c : Catalog) (name : String) : Option Entity :=
  c.entities.find? fun e => e.name == name

def require (c : Catalog) (name : String) : Except Failure Entity :=
  match c.entity? name with
  | some e => .ok e
  | none => .error (.unknownEntity name)

def targetOf : Storage → Option String
  | .toOne target _ => some target
  | .toMany target _ => some target
  | _ => none

def problems (c : Catalog) : List String :=
  (c.entities.flatMap fun e => e.attributes.filterMap fun a =>
    match targetOf a.storage with
    | some target =>
      if (c.entity? target).isNone then
        some (e.name ++ "." ++ a.name ++ " refers to unknown entity '" ++ target ++ "'")
      else none
    | none => none).mergeSort fun a b => decide (a ≤ b)

theorem entity?_eq_some_iff {c : Catalog} {name : String} {e : Entity} :
    c.entity? name = some e ↔ e ∈ c.entities ∧ e.name = name := by
  unfold entity?
  constructor
  · intro h
    exact ⟨List.mem_of_find?_eq_some h, by simpa using List.find?_some h⟩
  · rintro ⟨hmem, rfl⟩
    obtain ⟨before, after, hsplit⟩ := List.append_of_mem hmem
    have hbefore : ∀ x ∈ before, x.name ≠ e.name := fun x hx => by
      have hdistinct := c.distinct
      rw [hsplit] at hdistinct
      exact (List.pairwise_append.1 hdistinct).2.2 x hx e List.mem_cons_self
    rw [List.find?_eq_some_iff_append]
    exact ⟨by simp, before, after, hsplit, fun x hx => by simpa using hbefore x hx⟩

end Catalog
end PageQuery
