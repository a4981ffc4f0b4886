import PageQuery.Page.Result
import PageQuery.Plan.Build
import PageQuery.Settings
/-!
# The page service

The service plans a request for one entity, has the statements run, and makes a page of the rows.
Running is another's business: a database is what it answers to a plan, and the service records
what it asked.
-/
namespace PageQuery

/-- What a database answers: rows, and a number for a count. -/
structure Database where
  backend : Backend
  rows : Plan → Except String (List Json)
  count : Plan → Except String Int64

structure Service where
  catalog : Catalog
  database : Database
  entity : String
  capabilities : Capabilities
  maxLimit : Option UInt64

inductive Warning where
  | dropped (d : Dropped)
  | capped (requested capped : Option UInt64)
  | lowCount (counted items : UInt64)
  | otherBackend (configured actual : Backend)

inductive Call where
  | rows (p : Plan)
  | count (p : Plan)

/-- An outcome with what was run and warned of on the way. -/
structure Served (α : Type) where
  calls : List Call
  warnings : List Warning
  outcome : Except Failure α

namespace Service

def new (catalog : Catalog) (database : Database) (entity : String) : Service :=
  ⟨catalog, database, entity, database.backend.capabilities, none⟩

/-- A service under settings; what they say of capabilities applies to the database's own
backend. -/
def ofSettings (catalog : Catalog) (database : Database) (entity : String) (s : Settings) :
    List Warning × Service :=
  (if s.backend = database.backend then [] else [.otherBackend s.backend database.backend],
    { new catalog database entity with
      capabilities := s.capabilitiesFor database.backend, maxLimit := s.maxLimit })

/-! ## Planning -/

def cap (s : Service) (r : Request) : List Warning × Request :=
  match s.maxLimit.bind r.capped? with
  | some capped => ([.capped r.limit capped.limit], capped)
  | none => ([], r)

def build (s : Service) (r : Request) (wantCount : Bool) (recipe : Option Recipe)
    (requireProjection : Bool) : List Warning × Except Failure PagePlan :=
  match s.catalog.require s.entity with
  | .error f => ([], .error f)
  | .ok root =>
    let (journal, outcome) :=
      PagePlan.build s.catalog root s.capabilities r wantCount recipe requireProjection
    (journal.dropped.map .dropped, outcome)

def plan (s : Service) (r : Request) (wantCount : Bool) (recipe : Option Recipe) :
    Served PagePlan :=
  let (capped, r) := s.cap r
  let (dropped, outcome) := s.build r wantCount recipe false
  ⟨[], capped ++ dropped, outcome⟩

/-! ## Running -/

def truthOfNumber (j : Json) : Json :=
  match j.wordInt? with
  | some n => .boolean (n != 0)
  | none => j

def normalizeRow (columns : List OutputColumn) (row : Json) : Json :=
  (columns.filter fun c => decide (c.type = .boolean)).foldl
    (fun row c => row.mapMember c.name truthOfNumber) row

def decodeRows {α : Type} (decode : Json → Except String α) : List Json → Except Failure (List α)
  | [] => .ok []
  | row :: rows => do
    let a ← (decode row).mapError .undecodableRow
    let rest ← decodeRows decode rows
    .ok (a :: rest)

/-- A total; a negative count is none. -/
def totalOf (n : Int64) : UInt64 := n.toInt.toNat.toUInt64

def ran {α : Type} : Except String α → Except Failure α
  | .ok a => .ok a
  | .error cause => .error (.executionFailed cause)

def fetch (db : Database) (p : PagePlan) : List Call × Except Failure (List Json × Option Int64) :=
  match db.rows p.data with
  | .error cause => ([.rows p.data], .error (.executionFailed cause))
  | .ok rows =>
    match p.count with
    | none => ([.rows p.data], .ok (rows, none))
    | some q => ([.rows p.data, .count q], (ran (db.count q)).map fun n => (rows, some n))

def lowCount (total : Option UInt64) (size : Nat) : List Warning :=
  match total with
  | some t => if t < size.toUInt64 then [.lowCount t size.toUInt64] else []
  | none => []

def pageOf {α : Type} (decode : Json → Except String α) (p : PagePlan) (offset : UInt64)
    (rows : List Json) (count : Option Int64) : List Warning × Except Failure (Page α) :=
  match decodeRows decode (rows.map (normalizeRow p.data.columns)) with
  | .error f => ([], .error f)
  | .ok items =>
    let total := count.map totalOf
    (lowCount total items.length, .ok (Page.new items offset total))

/-- A page of items.  Items that are not the entity itself need a projection to be made of. -/
def page {α : Type} (s : Service) (decode : Json → Except String α) (requireProjection : Bool)
    (r : Request) (wantCount : Bool) (recipe : Option Recipe) : Served (Page α) :=
  let (capped, r) := s.cap r
  let (dropped, planned) := s.build r wantCount recipe requireProjection
  match planned with
  | .error f => ⟨[], capped ++ dropped, .error f⟩
  | .ok p =>
    match fetch s.database p with
    | (calls, .error f) => ⟨calls, capped ++ dropped, .error f⟩
    | (calls, .ok (rows, count)) =>
      let (low, outcome) := pageOf decode p r.offset rows count
      ⟨calls, capped ++ dropped ++ low, outcome⟩

end Service
end PageQuery
