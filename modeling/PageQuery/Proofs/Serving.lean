import PageQuery.Proofs.Built
import PageQuery.Service
/-!
# Serving a page

A page is planned, its rows are read, they are counted where a total is wanted, the truth values among them are put
right and each row is decoded.  The first of these to fail ends it: nothing is run of a page that was not planned,
nothing is counted whose rows were not read, and no row is decoded after one that is no item.
-/
namespace PageQuery

/-! ## Truth values that came back as numbers -/

namespace Json

def asTruth : Json → Json
  | .integer n =>
    if -9223372036854775808 ≤ n ∧ n ≤ 9223372036854775807 then .boolean (decide (n ≠ 0)) else .integer n
  | j => j

/-- A row as it is decoded: of an object, the values under the names of columns of truth values read as such, and all
else as it came. -/
def repaired (columns : List OutputColumn) : Json → Json
  | .object members => .object (members.map fun m =>
      (m.1, if ∃ c ∈ columns, c.name = m.1 ∧ c.type = .boolean then m.2.asTruth else m.2))
  | j => j

theorem asTruth_asTruth (j : Json) : j.asTruth.asTruth = j.asTruth := by
  cases j with
  | integer n =>
    by_cases hn : -9223372036854775808 ≤ n ∧ n ≤ 9223372036854775807
    · simp only [asTruth, if_pos hn]
    · simp only [asTruth, if_neg hn]
  | null | boolean | float | text | array | object => rfl

theorem mapMember_foldl_of_notObject {row : Json} (h : ∀ members, row ≠ .object members) (f : Json → Json)
    (names : List String) : names.foldl (fun row name => mapMember name f row) row = row := by
  have hstep : ∀ name, mapMember name f row = row := fun name => by
    cases row with
    | object members => exact absurd rfl (h members)
    | null | boolean | integer | float | text | array => rfl
  induction names with
  | nil => rfl
  | cons name names ih => rw [List.foldl_cons, hstep, ih]

/-- Changing the members of several names, one after the other, changes each of them once, if once is enough. -/
theorem mapMember_foldl {f : Json → Json} (hf : ∀ j, f (f j) = f j) (names : List String) :
    ∀ members : List (String × Json), names.foldl (fun row name => mapMember name f row) (.object members) =
      .object (members.map fun m => (m.1, if m.1 ∈ names then f m.2 else m.2)) := by
  induction names with
  | nil => intro members; simp
  | cons name names ih =>
    intro members
    rw [List.foldl_cons, mapMember, ih, List.map_map]
    refine congrArg Json.object (List.map_congr_left fun m _ => ?_)
    by_cases hname : m.1 = name
    · by_cases hmem : name ∈ names <;> simp [hname, hmem, hf]
    · simp [hname]

end Json

theorem truthOfNumber_eq : Service.truthOfNumber = Json.asTruth := by
  funext j
  cases j with
  | integer n =>
    by_cases hn : -9223372036854775808 ≤ n ∧ n ≤ 9223372036854775807
    · have hword : (Int64.ofInt n).toInt = n := Int64.toInt_ofInt_of_le (by omega) (by omega)
      have hzero : (Int64.ofInt n != 0) = decide (n ≠ 0) := by
        rw [Bool.eq_iff_iff, bne_iff_ne, decide_eq_true_iff, ne_eq, ← Int64.toInt_inj, hword, Int64.toInt_zero]
      simp only [Service.truthOfNumber, Json.wordInt?, Json.asTruth, if_pos hn, hzero]
    · simp only [Service.truthOfNumber, Json.wordInt?, Json.asTruth, if_neg hn]
  | null | boolean | float | text | array | object => rfl

/-- **Exactly the numbers in columns of truth values change**, each to whether it is not zero. -/
theorem normalizeRow_eq (columns : List OutputColumn) (row : Json) :
    Service.normalizeRow columns row = row.repaired columns := by
  have hnames : Service.normalizeRow columns row = ((columns.filter fun c => decide (c.type = .boolean)).map
      OutputColumn.name).foldl (fun row name => Json.mapMember name Json.asTruth row) row := by
    rw [List.foldl_map, Service.normalizeRow, truthOfNumber_eq]
  rw [hnames]
  cases row with
  | object members =>
    rw [Json.mapMember_foldl Json.asTruth_asTruth]
    refine congrArg Json.object (List.map_congr_left fun m _ => ?_)
    have hnamed : m.1 ∈ (columns.filter fun c => decide (c.type = .boolean)).map OutputColumn.name ↔
        ∃ c ∈ columns, c.name = m.1 ∧ c.type = .boolean := by
      simp [and_assoc, and_comm]
    simp only [hnamed]
  | null | boolean | integer | float | text | array => exact Json.mapMember_foldl_of_notObject (by simp) _ _

/-! ## Decoding -/

section
variable {α : Type} {decode : Json → Except String α}

theorem decodeRows_ok {rows : List Json} {items : List α}
    (h : List.Forall₂ (fun row a => decode row = .ok a) rows items) : Service.decodeRows decode rows = .ok items := by
  induction h with
  | nil => rfl
  | cons hrow _ ih =>
    simp only [Service.decodeRows, hrow, ih]
    rfl

theorem decodeRows_error {before : List Json} (hbefore : ∀ x ∈ before, (decode x).isOk = true) {row : Json}
    {cause : String} (hrow : decode row = .error cause) (after : List Json) :
    Service.decodeRows decode (before ++ row :: after) = .error (.undecodableRow cause) := by
  induction before with
  | nil =>
    simp only [List.nil_append, Service.decodeRows, hrow]
    rfl
  | cons x before ih =>
    obtain ⟨a, ha⟩ := exists_ok_of_isOk (hbefore x List.mem_cons_self)
    have hrest := ih fun y hy => hbefore y (List.mem_cons_of_mem x hy)
    simp only [List.cons_append, Service.decodeRows, ha, hrest]
    rfl

end

/-! ## Totals -/

theorem toNat_totalOf (n : Int64) : (Service.totalOf n).toNat = n.toInt.toNat := by
  have hlt := Int64.toInt_lt n
  unfold Service.totalOf
  rw [Nat.toUInt64_eq, UInt64.toNat_ofNat', Nat.mod_eq_of_lt]
  omega

theorem estimatedTotal_new {α : Type} (items : List α) (offset n : UInt64) :
    ∃ t, (Page.new items offset (some n)).estimatedTotal = some t ∧
      t.toNat = max n.toNat (items.length % 2 ^ 64) := by
  have hlength : items.length.toUInt64.toNat = items.length % 2 ^ 64 := by simp
  refine ⟨_, rfl, ?_⟩
  by_cases hlt : n < items.length.toUInt64
  · simp only [if_pos hlt]
    rw [UInt64.lt_iff_toNat_lt, hlength] at hlt
    rw [hlength, max_eq_right (Nat.le_of_lt hlt)]
  · simp only [if_neg hlt]
    rw [UInt64.lt_iff_toNat_lt, hlength, Nat.not_lt] at hlt
    rw [max_eq_left hlt]

/-! ## Runs -/

/-- What a database makes of the plans of a page: what is run, in its order, and the page or the first failure. -/
structure Served.Runs {α : Type} (db : Database) (decode : Json → Except String α) (offset : UInt64) (plan : PagePlan)
    (served : Served (Page α)) : Prop where
  /-- The rows are read once; after that they are counted, once, if there is a plan for it. -/
  calls : served.calls =
    .rows plan.data :: if (db.rows plan.data).isOk then plan.count.toList.map Call.count else []
  rowsFailed : ∀ cause, db.rows plan.data = .error cause → served.outcome = .error (.executionFailed cause)
  countFailed : ∀ rows, db.rows plan.data = .ok rows → ∀ q ∈ plan.count, ∀ cause, db.count q = .error cause →
    served.outcome = .error (.executionFailed cause)
  /-- The first row that is no item fails the page. -/
  undecodable : ∀ before row after, db.rows plan.data = .ok (before ++ row :: after) →
    (∀ q ∈ plan.count, (db.count q).isOk = true) →
    (∀ x ∈ before, (decode (x.repaired plan.data.columns)).isOk = true) →
    ∀ cause, decode (row.repaired plan.data.columns) = .error cause →
      served.outcome = .error (.undecodableRow cause)
  /-- Otherwise the page has every row in its order, and a total where they were counted. -/
  decoded : ∀ rows items, db.rows plan.data = .ok rows → (∀ q ∈ plan.count, (db.count q).isOk = true) →
    List.Forall₂ (fun row a => decode (row.repaired plan.data.columns) = .ok a) rows items →
    ∃ page, served.outcome = .ok page ∧ page.items = items ∧ page.offset = offset ∧
      (plan.count = none → page.estimatedTotal = none) ∧
      ∀ q ∈ plan.count, ∀ n, db.count q = .ok n →
        ∃ t, page.estimatedTotal = some t ∧ t.toNat = max n.toInt.toNat (items.length % 2 ^ 64)

namespace Service
variable {α : Type}

theorem pageOf_error {decode : Json → Except String α} {plan : PagePlan} {before : List Json}
    (hbefore : ∀ x ∈ before, (decode (x.repaired plan.data.columns)).isOk = true) {row : Json} {cause : String}
    (hrow : decode (row.repaired plan.data.columns) = .error cause) (after : List Json) (offset : UInt64)
    (count : Option Int64) :
    (pageOf decode plan offset (before ++ row :: after) count).2 = .error (.undecodableRow cause) := by
  have hdecoded : decodeRows decode ((before ++ row :: after).map (normalizeRow plan.data.columns)) =
      .error (.undecodableRow cause) := by
    rw [List.map_append, List.map_cons]
    refine decodeRows_error (fun x hx => ?_) ?_ _
    · obtain ⟨y, hy, rfl⟩ := List.mem_map.1 hx
      rw [normalizeRow_eq]
      exact hbefore y hy
    · rw [normalizeRow_eq]
      exact hrow
  unfold pageOf
  rw [hdecoded]

theorem pageOf_ok {decode : Json → Except String α} {plan : PagePlan} {rows : List Json} {items : List α}
    (h : List.Forall₂ (fun row a => decode (row.repaired plan.data.columns) = .ok a) rows items) (offset : UInt64)
    (count : Option Int64) :
    (pageOf decode plan offset rows count).2 = .ok (Page.new items offset (count.map totalOf)) := by
  have hdecoded : decodeRows decode (rows.map (normalizeRow plan.data.columns)) = .ok items := by
    refine decodeRows_ok ?_
    rw [List.forall₂_map_left_iff]
    simp only [normalizeRow_eq]
    exact h
  unfold pageOf
  rw [hdecoded]

theorem isSome_count {s : Service} {r : Request} {wantCount : Bool} {recipe : Option Recipe} {requireProjection : Bool}
    {plan : PagePlan} (h : (s.build r wantCount recipe requireProjection).2 = .ok plan) :
    plan.count.isSome = wantCount := by
  unfold build at h
  split at h
  · cases h
  · cases wantCount with
    | false => rw [count_eq_none h, Option.isSome_none]
    | true =>
      obtain ⟨p, -, -, hcount⟩ := build_ok h
      obtain ⟨count, hsome, -⟩ := hcount rfl
      rw [hsome, Option.isSome_some]

theorem offset_cap (s : Service) (r : Request) : (s.cap r).2.offset = r.offset := by
  unfold cap
  split
  · next capped hcapped =>
    obtain ⟨limit, -, hlimit⟩ := Option.bind_eq_some_iff.1 hcapped
    unfold Request.capped? at hlimit
    split at hlimit
    · split at hlimit
      · cases hlimit
      · cases hlimit
        rfl
    · cases hlimit
      rfl
  · rfl

/-! ### What is run -/

section
variable {db : Database} {plan : PagePlan}

theorem calls_fetch (db : Database) (plan : PagePlan) : (fetch db plan).1 =
    .rows plan.data :: if (db.rows plan.data).isOk then plan.count.toList.map Call.count else [] := by
  unfold fetch
  cases db.rows plan.data with
  | error cause => rfl
  | ok rows => cases plan.count <;> rfl

theorem fetch_rows_error {cause : String} (h : db.rows plan.data = .error cause) :
    (fetch db plan).2 = .error (.executionFailed cause) := by
  unfold fetch
  rw [h]

theorem fetch_count_error {rows : List Json} {q : Plan} {cause : String} (hrows : db.rows plan.data = .ok rows)
    (hq : q ∈ plan.count) (hcount : db.count q = .error cause) :
    (fetch db plan).2 = .error (.executionFailed cause) := by
  have hplanned : plan.count = some q := hq
  unfold fetch
  simp only [hrows, hplanned, hcount]
  rfl

theorem fetch_ok {rows : List Json} (hrows : db.rows plan.data = .ok rows)
    (hcounts : ∀ q ∈ plan.count, (db.count q).isOk = true) : ∃ count, (fetch db plan).2 = .ok (rows, count) ∧
      (plan.count = none → count = none) ∧ ∀ q ∈ plan.count, ∀ n, db.count q = .ok n → count = some n := by
  unfold fetch
  cases hplanned : plan.count with
  | none => exact ⟨none, by simp only [hrows], fun _ => rfl, fun q hq => by cases hq⟩
  | some q =>
    obtain ⟨n, hn⟩ := exists_ok_of_isOk (hcounts q hplanned)
    refine ⟨some n, ?_, fun hnone => (by cases hnone), fun q' hq' n' hn' => ?_⟩
    · simp only [hrows, hn]
      rfl
    · cases hq'
      rw [hn] at hn'
      cases hn'
      rfl

end

section
variable {s : Service} (decode : Json → Except String α) {requireProjection wantCount : Bool} {r : Request}
  {recipe : Option Recipe}

theorem page_unplanned {e : Failure} (h : (s.build (s.cap r).2 wantCount recipe requireProjection).2 = .error e) :
    (s.page decode requireProjection r wantCount recipe).calls = [] ∧
      (s.page decode requireProjection r wantCount recipe).outcome = .error e := by
  unfold page
  simp only [h, and_self]

theorem page_planned {plan : PagePlan}
    (h : (s.build (s.cap r).2 wantCount recipe requireProjection).2 = .ok plan) :
    (s.page decode requireProjection r wantCount recipe).calls = (fetch s.database plan).1 ∧
      (s.page decode requireProjection r wantCount recipe).outcome =
        (fetch s.database plan).2 >>= fun x => (pageOf decode plan r.offset x.1 x.2).2 := by
  unfold page
  simp only [h, offset_cap]
  rcases fetch s.database plan with ⟨calls, e | ⟨rows, count⟩⟩ <;> exact ⟨rfl, rfl⟩

end

/-- **A page, from its request to its items.**  A request that cannot be planned asks nothing of the database; of one
that is planned the plans are run as they should be, the total being planned just where it is wanted. -/
theorem page_runs (s : Service) (decode : Json → Except String α) (requireProjection : Bool) (r : Request)
    (wantCount : Bool) (recipe : Option Recipe) :
    (∀ e, (s.build (s.cap r).2 wantCount recipe requireProjection).2 = .error e →
        (s.page decode requireProjection r wantCount recipe).calls = [] ∧
        (s.page decode requireProjection r wantCount recipe).outcome = .error e) ∧
      ∀ plan, (s.build (s.cap r).2 wantCount recipe requireProjection).2 = .ok plan →
        plan.count.isSome = wantCount ∧
        (s.page decode requireProjection r wantCount recipe).Runs s.database decode r.offset plan := by
  refine ⟨fun e he => page_unplanned decode he, fun plan hplan => ⟨isSome_count hplan, ?_⟩⟩
  obtain ⟨hcalls, houtcome⟩ := page_planned decode hplan
  refine
    { calls := hcalls.trans (calls_fetch _ _)
      rowsFailed := fun cause hrows => by rw [houtcome, fetch_rows_error hrows]; rfl
      countFailed := fun rows hrows q hq cause hcount => by rw [houtcome, fetch_count_error hrows hq hcount]; rfl
      undecodable := fun before row after hrows hcounts hbefore cause hrow => ?_
      decoded := fun rows items hrows hcounts hitems => ?_ }
  · obtain ⟨count, hfetch, -⟩ := fetch_ok hrows hcounts
    rw [houtcome, hfetch]
    exact pageOf_error hbefore hrow after r.offset count
  · obtain ⟨count, hfetch, hnone, hsome⟩ := fetch_ok hrows hcounts
    refine ⟨Page.new items r.offset (count.map totalOf), ?_, rfl, rfl, fun hplan => ?_, fun q hq n hn => ?_⟩
    · rw [houtcome, hfetch]
      exact pageOf_ok hitems r.offset count
    · rw [hnone hplan]
      rfl
    · rw [hsome q hq n hn, ← toNat_totalOf]
      exact estimatedTotal_new items r.offset (totalOf n)

end Service

namespace Sample

def club : Catalog :=
  .ofList [.ofDeclarations "member" "members" [.scalar "active" .boolean, .scalar "visits" .integer]]

def memberRow (id : Int) (active : Json) (visits : Int) : Json :=
  .object [("id", .integer id), ("active", active), ("visits", .integer visits)]

def clubBooks : Database where
  backend := .sqlite
  rows _ := .ok [memberRow 1 (.integer 1) 1, memberRow 2 (.integer 0) 7]
  count _ := .ok (-1)

def clubService : Service := .new club clubBooks "member"

end Sample

open Sample in
/-- The members are read with their truth values, the numbers of their visits stay numbers, and there are at least as
many as were read. -/
theorem members_page :
    ∃ plan, (clubService.build (clubService.cap Request.all).2 true none false).2 = .ok plan ∧
      ∃ page, (clubService.page .ok false Request.all true none).outcome = .ok page ∧
        page.items = [memberRow 1 (.boolean true) 1, memberRow 2 (.boolean false) 7] ∧
        ∃ t, page.estimatedTotal = some t ∧ t.toNat = 2 := by
  obtain ⟨plan, hplan, hcolumns, hcount⟩ := exists_ok
    (P := fun plan : PagePlan => plan.data.columns = [⟨"id", .integer⟩, ⟨"active", .boolean⟩, ⟨"visits", .integer⟩] ∧
      plan.count.isSome = true)
    (x := (clubService.build (clubService.cap Request.all).2 true none false).2) (by decide +kernel)
  obtain ⟨q, hq⟩ := Option.isSome_iff_exists.1 hcount
  have hruns := ((Service.page_runs clubService .ok false Request.all true none).2 plan hplan).2
  have hrow : ∀ id n visits, (n = 0 ∨ n = 1) →
      (memberRow id (.integer n) visits).repaired plan.data.columns =
        memberRow id (.boolean (decide (n ≠ 0))) visits := by
    rintro id n visits (rfl | rfl) <;> simp [memberRow, Json.repaired, Json.asTruth, hcolumns]
  obtain ⟨page, hpage, hitems, -, -, htotal⟩ := hruns.decoded _ _ rfl (fun _ _ => rfl)
    (.cons (congrArg Except.ok (hrow 1 1 1 (.inr rfl))) (.cons (congrArg Except.ok (hrow 2 0 7 (.inl rfl))) .nil))
  exact ⟨plan, hplan, page, hpage, hitems, htotal q hq (-1) rfl⟩

end PageQuery
