import Mathlib.Order.Defs.LinearOrder
import Mathlib.Data.Prod.Lex
import Mathlib.Data.String.Basic
import PageQuery.Plan.Build
import PageQuery.Proofs.Parts
/-!
# What statements mean

The rows of a statement over a database, in the standard reading: left joins keep a row that matches nothing and fill it
up with NULL, conditions are three-valued and keep a row when they are true, groups are the rows of one key with NULL
equal to itself, and a subquery sees the labels around it behind its own.

What SQL leaves to the database is a `Dialect`: values compare through their rank in a linear order, so equality, order,
grouping and DISTINCT agree with each other; the functions on text and the arithmetic of sums are its own.

Every expression is given a meaning over a list of joined rows, one for a condition of rows, a group for a condition of
groups.  Outside aggregates a column is read off the first of them; where SQL accepts the statement, all rows of a
group agree on it.  A label that two tables bear, which SQL refuses, means the first.

The rows of a statement are those before they are sorted and cut to the range.
-/
namespace PageQuery

/-- A value, or NULL. -/
abbrev Cell := Option Value

/-- A row of a table: the cell of each column. -/
abbrev Row := String → Cell

/-- A joined row: the rows in sight, each under its label, the innermost first. -/
abbrev Tuple := List (String × Row)

structure Store where
  rows : String → List Row

/-- What a database decides for itself: how values compare, and its functions on them. -/
structure Dialect where
  Rank : Type
  order : LinearOrder Rank
  /-- Values are equal when their ranks are. -/
  rank : Value → Rank
  lower : Value → Value
  like : Value → String → Bool
  sum : List Value → Value
  avg : List Value → Value

attribute [instance] Dialect.order

/-! ## Values -/

def countValue (n : Nat) : Value := .int64 (Int64.ofNat n)

def truth (b : Bool) : Cell := some (.boolean b)

/-- Conditions keep what they are true of: neither what is false nor what is unknown. -/
def isTrue : Cell → Bool
  | some (.boolean b) => b
  | _ => false

def opposite : Cell → Cell
  | some (.boolean b) => truth !b
  | _ => none

/-- Whether either holds: one true side settles it, else one unknown side leaves it unknown. -/
def eitherOf : Cell → Cell → Cell
  | some (.boolean a), some (.boolean b) => truth (a || b)
  | some (.boolean true), _ => truth true
  | _, some (.boolean true) => truth true
  | _, _ => none

def bothOf (a b : Cell) : Cell := opposite (eitherOf (opposite a) (opposite b))

def Function.isAggregate : Function → Bool
  | .lower => false
  | _ => true

namespace Dialect
variable (d : Dialect)

/-- What grouping compares: the rank, or that there is no value. -/
def key (c : Cell) : Option d.Rank := c.map d.rank

def keys (cs : List Cell) : List (Option d.Rank) := cs.map d.key

def equal (a b : Cell) : Bool := a.isSome && decide (d.key a = d.key b)

def test (op : Comparison) (v w : Value) : Bool :=
  match op with
  | .eq => decide (d.rank v = d.rank w)
  | .ne => decide (d.rank v ≠ d.rank w)
  | .lt => decide (d.rank v < d.rank w)
  | .le => decide (d.rank v ≤ d.rank w)
  | .gt => decide (d.rank w < d.rank v)
  | .ge => decide (d.rank w ≤ d.rank v)

def compare (op : Comparison) : Cell → Cell → Cell
  | some v, some w => truth (d.test op v w)
  | _, _ => none

/-- Whether a cell is among others: unknown when only a NULL could make it so. -/
def among (c : Cell) (cs : List Cell) : Cell :=
  if cs.any (d.equal c) then truth true
  else if cs.isEmpty then truth false
  else if c.isNone || cs.any Option.isNone then none
  else truth false

def least : List Value → Cell
  | [] => none
  | v :: vs =>
    match least vs with
    | none => some v
    | some w => if d.rank w < d.rank v then some w else some v

def greatest : List Value → Cell
  | [] => none
  | v :: vs =>
    match greatest vs with
    | none => some v
    | some w => if d.rank v < d.rank w then some w else some v

/-- An aggregate over the cells of a group; NULL does not take part. -/
def aggregate (f : Function) (cs : List Cell) : Cell :=
  let vs := cs.filterMap id
  match f with
  | .lower => none
  | .count => some (countValue vs.length)
  | .countDistinct => some (countValue (vs.map d.rank).dedup.length)
  | .sum => if vs.isEmpty then none else some (d.sum vs)
  | .avg => if vs.isEmpty then none else some (d.avg vs)
  | .min => d.least vs
  | .max => d.greatest vs

end Dialect

/-! ## Joined rows -/

def nullRow : Row := fun _ => none

namespace Tuple

def cell (w : Tuple) (c : Column) : Cell :=
  match w.lookup c.source with
  | some r => r c.name
  | none => none

variable (d : Dialect) (db : Store)

/-- A joined row with each match of a join, or with NULL. -/
def extend (w : Tuple) (j : Join) : List Tuple :=
  match (db.rows j.table).filter fun r => d.equal (r j.column) (w.cell j.owner) with
  | [] => [w ++ [(j.label, nullRow)]]
  | r :: rs => (r :: rs).map fun r => w ++ [(j.label, r)]

def joined : List Join → Tuple → List Tuple
  | [], w => [w]
  | j :: js, w => (w.extend d db j).flatMap (joined js)

end Tuple

/-- The joined rows of a table and its joins. -/
def Store.tuples (d : Dialect) (db : Store) (table label : String) (joins : List Join) : List Tuple :=
  (db.rows table).flatMap fun r => Tuple.joined d db joins [(label, r)]

/-! ## Expressions -/

def Expr.isAggregate : Expr → Bool
  | .column _ | .value _ | .nonempty _ | .scalar _ => false
  | .call f a => f.isAggregate || a.isAggregate
  | .compare _ a b => a.isAggregate || b.isAggregate
  | .isNull a | .isNotNull a | .inValues a _ | .inQuery a _ | .like a _ | .not a => a.isAggregate
  | .between a b c => a.isAggregate || b.isAggregate || c.isAggregate
  | .and a b | .or a b => a.isAggregate || b.isAggregate

mutual

def Expr.eval (d : Dialect) (db : Store) : Expr → List Tuple → Cell
  | .column c, g => Tuple.cell (g.headD []) c
  | .value v, _ => some v
  | .call f a, g =>
    if f.isAggregate then d.aggregate f (g.map fun w => a.eval d db [w]) else (a.eval d db g).map d.lower
  | .compare op a b, g => d.compare op (a.eval d db g) (b.eval d db g)
  | .isNull a, g => truth (a.eval d db g).isNone
  | .isNotNull a, g => truth (a.eval d db g).isSome
  | .between a low high, g =>
    bothOf (d.compare .ge (a.eval d db g) (low.eval d db g)) (d.compare .ge (high.eval d db g) (a.eval d db g))
  | .inValues a vs, g => d.among (a.eval d db g) (vs.map some)
  | .inQuery a q, g => d.among (a.eval d db g) (q.eval d db (g.headD []))
  | .like a pattern, g => (a.eval d db g).map fun v => .boolean (d.like v pattern)
  | .not a, g => opposite (a.eval d db g)
  | .and a b, g => bothOf (a.eval d db g) (b.eval d db g)
  | .or a b, g => eitherOf (a.eval d db g) (b.eval d db g)
  | .nonempty q, g => truth !(q.eval d db (g.headD [])).isEmpty
  | .scalar q, g => (q.eval d db (g.headD [])).head?.join

def Expr.evalAll (d : Dialect) (db : Store) : List Expr → List Tuple → List Cell
  | [], _ => []
  | e :: es, g => e.eval d db g :: Expr.evalAll d db es g

/-- The cells that a subquery puts out, seen from a joined row around it. -/
def Subquery.eval (d : Dialect) (db : Store) : Subquery → Tuple → List Cell
  | .select item table label joins conditions groupBy having, outer =>
    (pick (fun w => (Expr.evalAll d db conditions [w ++ outer]).all isTrue)
      groupBy.isEmpty (item.isAggregate || !having.isEmpty)
      (fun w => d.keys (Expr.evalAll d db groupBy [w ++ outer]))
      (fun g => (Expr.evalAll d db having (g.map (· ++ outer))).all isTrue)
      (db.tuples d table label joins)).map fun g => item.eval d db (g.map (· ++ outer))

end

def holdsAll (d : Dialect) (db : Store) (es : List Expr) (g : List Tuple) : Bool :=
  es.all fun e => isTrue (e.eval d db g)

theorem Expr.evalAll_eq_map (d : Dialect) (db : Store) (g : List Tuple) (es : List Expr) :
    Expr.evalAll d db es g = es.map fun e => e.eval d db g := by
  induction es with
  | nil => simp [Expr.evalAll]
  | cons e es ih => simp [Expr.evalAll, ih]

def groupKey (d : Dialect) (db : Store) (es : List Expr) (w : Tuple) : List (Option d.Rank) :=
  es.map fun e => d.key (e.eval d db [w])

theorem Subquery.eval_select (d : Dialect) (db : Store) (item : Expr) (table label : String) (joins : List Join)
    (conditions groupBy having : List Expr) (outer : Tuple) :
    (Subquery.select item table label joins conditions groupBy having).eval d db outer =
      (pick (fun w => holdsAll d db conditions [w ++ outer]) groupBy.isEmpty (item.isAggregate || !having.isEmpty)
        (fun w => groupKey d db groupBy (w ++ outer)) (fun g => holdsAll d db having (g.map (· ++ outer)))
        (db.tuples d table label joins)).map fun g => item.eval d db (g.map (· ++ outer)) := by
  simp only [Subquery.eval, Expr.evalAll_eq_map, Dialect.keys, groupKey, holdsAll, List.all_map, List.map_map,
    Function.comp_def]

/-! ## Statements -/

structure ResultRow where
  cells : List Cell
  members : List Tuple

def mergeRows (d : Dialect) (rs : List ResultRow) : List ResultRow :=
  (parts false false (fun r => d.keys r.cells) rs).map fun same =>
    ⟨(same.head?.map ResultRow.cells).getD [], same.flatMap ResultRow.members⟩

namespace Statement
variable (d : Dialect) (db : Store) (q : Statement)

def aggregated : Bool :=
  q.items.any (fun i => i.expr.isAggregate) || !q.having.isEmpty || q.orderBy.any fun k => k.expr.isAggregate

def groups : List (List Tuple) :=
  pick (fun w => holdsAll d db q.conditions [w]) q.groupBy.isEmpty q.aggregated (groupKey d db q.groupBy)
    (holdsAll d db q.having) (db.tuples d q.table q.label q.joins)

def rows : List ResultRow :=
  let rs := (q.groups d db).map fun g => (⟨q.items.map fun i => i.expr.eval d db g, g⟩ : ResultRow)
  if q.distinct then mergeRows d rs else rs

def value : Cell := ((q.rows d db).head?.bind fun r => r.cells.head?).join

def isOf (column : String) (id : Cell) (w : Tuple) : Bool := decide (d.key (w.cell ⟨q.label, column⟩) = d.key id)

/-- Whether the root row with an identity contributes to a row of the statement. -/
def draws (column : String) (id : Cell) : Bool :=
  (q.rows d db).any fun row => row.members.any (q.isOf d column id)

end Statement

/-! ## Identities -/

/-- The column tells the rows of the table apart and is never NULL. -/
structure Store.Keyed (d : Dialect) (db : Store) (table column : String) : Prop where
  filled : ∀ r ∈ db.rows table, (r column).isSome = true
  apart : (db.rows table).Pairwise fun r t => d.key (r column) ≠ d.key (t column)

instance (d : Dialect) (db : Store) (table column : String) : Decidable (db.Keyed d table column) :=
  decidable_of_iff ((∀ r ∈ db.rows table, (r column).isSome = true) ∧
      (db.rows table).Pairwise fun r t => d.key (r column) ≠ d.key (t column))
    ⟨fun h => ⟨h.1, h.2⟩, fun h => ⟨h.filled, h.apart⟩⟩

def Store.Identifies (d : Dialect) (db : Store) (e : Entity) : Prop := db.Keyed d e.table e.identityColumn

instance (d : Dialect) (db : Store) (e : Entity) : Decidable (db.Identifies d e) :=
  inferInstanceAs (Decidable (db.Keyed d e.table e.identityColumn))

/-! ## A plain dialect

Numbers by size whatever their width, text by its characters, truth values before numbers and numbers before text. -/

/-- A pattern of LIKE: a percent sign is any run, an underscore any one character, and what follows a backslash is
itself. -/
def matchesLike : List Char → List Char → Bool
  | [], t => t.isEmpty
  | '%' :: p, t => t.tails.any (matchesLike p)
  | '_' :: p, _ :: t => matchesLike p t
  | '\\' :: c :: p, x :: t => c == x && matchesLike p t
  | c :: p, x :: t => c == x && matchesLike p t
  | _ :: _, [] => false

def Value.units? : Value → Option Int
  | .int32 n => some (n.toInt * Binary64.unitsInOne)
  | .int64 n => some (n.toInt * Binary64.unitsInOne)
  | .uint64 n => some (n.toNat * Binary64.unitsInOne)
  | .double (.finite negative units) => some (if negative then -(units : Int) else units)
  | _ => none

/-- The place of a value in the order of all values: a kind, a number and a text. -/
def Value.plainRank (v : Value) : ℕ ×ₗ ℤ ×ₗ String :=
  match v with
  | .boolean b => toLex (0, toLex (if b then 1 else 0, ""))
  | .double (.infinite true) => toLex (1, toLex (0, ""))
  | .double (.infinite false) => toLex (3, toLex (0, ""))
  | .double .nan => toLex (4, toLex (0, ""))
  | .text s => toLex (5, toLex (0, s))
  | v => toLex (2, toLex (v.units?.getD 0, ""))

def doubleOf (total : Int) (shares : Nat) : Value :=
  .double (Binary64.ofRatio (decide (total < 0)) total.natAbs (Binary64.unitsInOne * shares))

def Value.word? : Value → Option Int
  | .int64 n => some n.toInt
  | _ => none

def total (ns : List Int) : Int := ns.foldr (· + ·) 0

def sumOf (vs : List Value) : Value :=
  if vs.all fun v => v.word?.isSome then .int64 (Int64.ofInt (total (vs.filterMap Value.word?)))
  else doubleOf (total (vs.filterMap Value.units?)) 1

def Dialect.plain : Dialect where
  Rank := ℕ ×ₗ ℤ ×ₗ String
  order := inferInstance
  rank := Value.plainRank
  lower := fun v => match v with
    | .text s => .text (lowercase s)
    | v => v
  like := fun v pattern => match v with
    | .text s => matchesLike pattern.toList s.toList
    | _ => false
  sum := sumOf
  avg := fun vs => doubleOf (total (vs.filterMap Value.units?)) vs.length

/-! ## A small store

Ada has two orders of different amounts, with one item each; Bob has none. -/

namespace Sample

def person : Entity :=
  .ofDeclarations "person" "persons" [.scalar "name" .text, .toMany "orders" "order" "person_id"]

def order : Entity :=
  .ofDeclarations "order" "orders"
    [.scalar "amount" .integer, .collection "items" "order_items" "order_id" "item" .text]

def catalog : Catalog := .ofList [person, order]

def row (cells : List (String × Value)) : Row := fun column => cells.lookup column

def store : Store where
  rows
    | "persons" => [row [("id", .int64 1), ("name", .text "Ada")], row [("id", .int64 2), ("name", .text "Bob")]]
    | "orders" =>
      [row [("id", .int64 10), ("person_id", .int64 1), ("amount", .int64 5)],
        row [("id", .int64 11), ("person_id", .int64 1), ("amount", .int64 7)]]
    | "order_items" =>
      [row [("order_id", .int64 10), ("item", .text "pen")], row [("order_id", .int64 11), ("item", .text "ink")]]
    | _ => []

def bothItems : Criterion := .alternatives [.value (.text "pen"), .value (.text "ink")]

def shoppersBy (path : String) : Request :=
  { Request.all with ordering := [⟨path, true⟩], required := [⟨"orders.items", bothItems⟩] }

def personsBy (path : String) : Request := { Request.all with ordering := [⟨path, true⟩] }

end Sample
end PageQuery
