import PageQuery.Path.Marker
import PageQuery.Path.Term
import PageQuery.Schema.Catalog
/-!
# Scopes: what paths mean at one query root

A scope is a root entity under a label with the left joins that its paths have asked for so far.
What a path means does not depend on the joins already there: a join's label is made from its key,
the path that reaches it, so walking a path gives its term and the joins it needs, and the scope
only adds those it lacks.

Fields of a projection shadow paths of the same name.
-/
namespace PageQuery

/-- A join and the path that reaches it; a membership join's key ends in the marker. -/
structure KeyedJoin where
  key : String
  join : Join
  deriving DecidableEq, Repr

structure Scope where
  catalog : Catalog
  root : Entity
  label : String
  joins : List KeyedJoin
  /-- The fields that shadow paths. -/
  fields : List (String × Term)
  /-- How many subqueries were opened under this scope. -/
  subqueries : Nat

/-! ## Walking a path -/

def joinLabel (rootLabel key : String) : String :=
  rootLabel ++ "_" ++ replaceChar '@' "_in" (replaceChar '.' "_" key)

/-- Where a walk stands: the entity reached, its label, and the path so far. -/
structure Position where
  entity : Entity
  label : String
  key : String

def extendKey (key segment : String) : String :=
  if key.isEmpty then segment else key ++ "." ++ segment

namespace Scope

def new (catalog : Catalog) (root : Entity) (label : String) : Scope :=
  ⟨catalog, root, label, [], [], 0⟩

def identity (s : Scope) : Term :=
  ⟨Expr.col s.label s.root.identityColumn, s.root.identityAttribute.type, .column⟩

def rootColumn (s : Scope) (name : String) : Expr := Expr.col s.label name

def start (s : Scope) : Position := ⟨s.root, s.label, ""⟩

def joinAt (s : Scope) (key table column : String) (owner : Column) (toMany : Bool) : KeyedJoin :=
  ⟨key, ⟨table, joinLabel s.label key, column, owner, toMany⟩⟩

def step (s : Scope) (path : String) (p : Position) (segment : String) :
    Except Failure (KeyedJoin × Position) :=
  if segment.toList.head? = some '@' then .error (.invalidPath path .earlyMarker)
  else do
    let a ← p.entity.lookup segment
    let key := extendKey p.key segment
    match a.storage with
    | .toOne target foreignKey =>
      let e ← s.catalog.require target
      let j := s.joinAt key e.table e.identityColumn ⟨p.label, foreignKey⟩ false
      .ok (j, ⟨e, j.join.label, key⟩)
    | .toMany target mappedBy =>
      let e ← s.catalog.require target
      let j := s.joinAt key e.table mappedBy ⟨p.label, p.entity.identityColumn⟩ true
      .ok (j, ⟨e, j.join.label, key⟩)
    | _ => .error (.invalidPath path (.notRelation segment))

/-- The steps along relations: the joins made, also before a failure, and where they end. -/
def walk (s : Scope) (path : String) :
    Position → List String → List KeyedJoin × Except Failure Position
  | p, [] => ([], .ok p)
  | p, segment :: rest =>
    match s.step path p segment with
    | .error f => ([], .error f)
    | .ok (j, q) =>
      let (js, r) := walk s path q rest
      (j :: js, r)

/-- The last name of a path: its term, and the join of a collection. -/
def leaf (s : Scope) (path : String) (p : Position) (segment : String) :
    Except Failure (Option KeyedJoin × Term) := do
  let (name, marker) ← parseMarker path segment
  let a ← p.entity.lookup name
  let key := extendKey p.key name ++ (if marker = .membership then "@" else "")
  let owner : Column := ⟨p.label, p.entity.identityColumn⟩
  match a.storage, marker with
  | .column c, .plain => .ok (none, ⟨Expr.col p.label c, a.type, .column⟩)
  | .toOne target foreignKey, .plain =>
    let e ← s.catalog.require target
    .ok (none, ⟨Expr.col p.label foreignKey, e.identityAttribute.type, .column⟩)
  | .column _, _ | .toOne _ _, _ => .error (.invalidPath path (.notCollection name))
  | .toMany target mappedBy, _ =>
    let e ← s.catalog.require target
    let j := s.joinAt key e.table mappedBy owner true
    .ok (some j, ⟨Expr.col j.join.label e.identityColumn, e.identityAttribute.type, .collection⟩)
  | .collection table ownerKey valueColumn, _ =>
    let j := s.joinAt key table ownerKey owner true
    .ok (some j, ⟨Expr.col j.join.label valueColumn, a.type, .collection⟩)

/-- What a path means: the joins it needs, also before a failure, and its term. -/
def trace (s : Scope) (path : String) : List KeyedJoin × Except Failure Term :=
  match FieldPath.parse path with
  | .error f => ([], .error f)
  | .ok segments =>
    match s.walk path s.start segments.parents with
    | (js, .error f) => (js, .error f)
    | (js, .ok p) =>
      match s.leaf path p segments.last with
      | .error f => (js, .error f)
      | .ok (j, t) => (js ++ j.toList, .ok t)

def terminal (s : Scope) (path : String) : Except Failure Attribute := do
  let segments ← FieldPath.parse path
  let p ← (s.walk path s.start segments.parents).2
  let (name, _) ← parseMarker path segments.last
  p.entity.lookup name

/-! ## Resolving -/

def field? (s : Scope) (name : String) : Option Term := s.fields.lookup name

def addJoin (s : Scope) (j : KeyedJoin) : Scope :=
  if s.joins.any (fun k => k.key == j.key) then s else { s with joins := s.joins ++ [j] }

def addJoins (s : Scope) (js : List KeyedJoin) : Scope := js.foldl addJoin s

theorem addJoin_of_mem {s : Scope} {j : KeyedJoin} (h : j.key ∈ s.joins.map KeyedJoin.key) :
    s.addJoin j = s := by
  obtain ⟨k, hk, he⟩ := List.mem_map.1 h
  unfold addJoin
  rw [if_pos (List.any_eq_true.2 ⟨k, hk, by simp [he]⟩)]

theorem addJoin_of_notMem {s : Scope} {j : KeyedJoin} (h : j.key ∉ s.joins.map KeyedJoin.key) :
    s.addJoin j = { s with joins := s.joins ++ [j] } := by
  unfold addJoin
  rw [if_neg]
  intro ha
  obtain ⟨k, hk, he⟩ := List.any_eq_true.1 ha
  exact h (List.mem_map.2 ⟨k, hk, by simpa using he⟩)

def resolve (s : Scope) (path : String) : Scope × Except Failure Term :=
  match s.field? path with
  | some t => (s, .ok t)
  | none =>
    let (js, r) := s.trace path
    (s.addJoins js, r)

/-- The term of a path, a collection without a marker being reached by a marked path. -/
def resolveMarked (mark : String → String) (s : Scope) (path : String) :
    Scope × Except Failure Term :=
  match s.field? path with
  | some t => (s, .ok t)
  | none =>
    match s.terminal path with
    | .error f => (s, .error f)
    | .ok a => s.resolve (if a.isCollection && !hasChar '@' path then mark path else path)

/-- The term that output and ordering read: collections through their shared join. -/
def readTarget (s : Scope) (path : String) : Scope × Except Failure Term :=
  s.resolveMarked sharedPath path

/-- The term that a filter tests: collections through their membership join. -/
def filterTarget (s : Scope) (path : String) : Scope × Except Failure Term :=
  s.resolveMarked membershipPath path

def hasJoins (s : Scope) : Bool := !s.joins.isEmpty

def hasToManyJoins (s : Scope) : Bool := s.joins.any fun j => j.join.toMany

def joinList (s : Scope) : List Join := s.joins.map KeyedJoin.join

/-! ## Subqueries about the root row -/

/-- A fresh scope over the same root under the next label for subqueries. -/
def detached (s : Scope) : Scope :=
  new s.catalog s.root (s.label ++ "_sub" ++ toString s.subqueries)

def opened (s : Scope) : Scope := { s with subqueries := s.subqueries + 1 }

/-- The subquery of a scope about the row whose identity is `outer`. -/
def correlated (s : Scope) (item outer : Expr) (conditions groupBy having : List Expr) : Subquery :=
  .select item s.root.table s.label s.joinList (Expr.eq s.identity.expr outer :: conditions)
    groupBy having

end Scope
end PageQuery
