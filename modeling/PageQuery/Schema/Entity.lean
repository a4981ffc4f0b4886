import PageQuery.Failure
/-!
# Entities

An entity has a table, an identity and attributes.  It is written down as a list of declarations,
read in order: declaring a name again moves it to the end, and declaring an identity removes the
one before it.
-/
namespace PageQuery

/-- Where the values of an attribute are stored. -/
inductive Storage where
  /-- In a column of the entity's own table. -/
  | column (name : String)
  /-- As a foreign key in the entity's own table. -/
  | toOne (target foreignKey : String)
  /-- In the target's table, whose column `mappedBy` points back. -/
  | toMany (target mappedBy : String)
  /-- In a table of their own, one row per value. -/
  | collection (table ownerKey valueColumn : String)
  deriving DecidableEq, Repr

structure Attribute where
  name : String
  type : ValueType
  storage : Storage
  deriving DecidableEq, Repr

def Attribute.isCollection (a : Attribute) : Bool :=
  match a.storage with
  | .column _ | .toOne _ _ => false
  | .toMany _ _ | .collection _ _ _ => true

structure Entity where
  name : String
  table : String
  /-- The name of the identity attribute. -/
  identity : String
  attributes : List Attribute
  deriving DecidableEq, Repr

/-- One line of an entity's description. -/
inductive Declaration where
  | identity (name column : String) (type : ValueType)
  | scalar (name : String) (type : ValueType)
  | scalarColumn (name column : String) (type : ValueType)
  | toOne (name target foreignKey : String)
  | toMany (name target mappedBy : String)
  | collection (name table ownerKey valueColumn : String) (type : ValueType)
  deriving DecidableEq, Repr

def Declaration.declared : Declaration → Attribute
  | .identity name column type => ⟨name, type, .column column⟩
  | .scalar name type => ⟨name, type, .column name⟩
  | .scalarColumn name column type => ⟨name, type, .column column⟩
  | .toOne name target foreignKey => ⟨name, .reference target, .toOne target foreignKey⟩
  | .toMany name target mappedBy => ⟨name, .reference target, .toMany target mappedBy⟩
  | .collection name table ownerKey valueColumn type =>
    ⟨name, type, .collection table ownerKey valueColumn⟩

namespace Entity

/-- A new entity is identified by the integer column `id`. -/
def new (name table : String) : Entity :=
  ⟨name, table, "id", [⟨"id", .integer, .column "id"⟩]⟩

def without (e : Entity) (name : String) : Entity :=
  { e with attributes := e.attributes.filter fun a => a.name != name }

def push (e : Entity) (a : Attribute) : Entity :=
  { e with attributes := (e.without a.name).attributes ++ [a] }

def declare (e : Entity) (d : Declaration) : Entity :=
  match d with
  | .identity name _ _ => { (e.without e.identity).push d.declared with identity := name }
  | _ => e.push d.declared

def ofDeclarations (name table : String) (ds : List Declaration) : Entity :=
  ds.foldl declare (new name table)

def lookup? (e : Entity) (name : String) : Option Attribute :=
  e.attributes.find? fun a => a.name == name

def lookup (e : Entity) (name : String) : Except Failure Attribute :=
  match e.lookup? name with
  | some a => .ok a
  | none => .error (.unknownAttribute e.name name)

/-- The identity attribute.  Every described entity has it among its attributes; a value of this
type made otherwise falls back to its first attribute, and to a column of the identity's name. -/
def identityAttribute (e : Entity) : Attribute :=
  match e.lookup? e.identity with
  | some a => a
  | none => e.attributes.headD ⟨e.identity, .integer, .column e.identity⟩

def identityColumn (e : Entity) : String :=
  match e.identityAttribute.storage with
  | .column c => c
  | _ => e.identity

def columns (e : Entity) : List (Attribute × String) :=
  e.attributes.filterMap fun a =>
    match a.storage with
    | .column c => some (a, c)
    | _ => none

theorem lookup_ok {e : Entity} {name : String} {a : Attribute}
    (h : e.lookup name = .ok a) : a ∈ e.attributes ∧ a.name = name := by
  unfold lookup lookup? at h
  split at h
  · next b hb =>
    simp only [Except.ok.injEq] at h
    subst h
    exact ⟨List.mem_of_find?_eq_some hb, by simpa using List.find?_some hb⟩
  · simp at h

end Entity
end PageQuery
