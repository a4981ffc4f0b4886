import PageQuery.Proofs.Serving
import PageQuery.Proofs.WellFormed
/-!
# The greatest limit of a service

Settings may name a greatest limit, which is then at least one.  A service under them plans no request that asks for
more: one that does, or that asks for everything, is planned with the greatest limit in place of its own, nothing else
of it changed and a warning given; any other is planned as it is.  So the rows are read under a limit, and what was
capped once is not capped again.
-/
namespace PageQuery

/-! ## What settings and requests promise -/

theorem exists_ok_of_bind {ε α β : Type} {x : Except ε α} {k : α → Except ε β} {b : β} (h : x >>= k = .ok b) :
    ∃ a, x = .ok a ∧ k a = .ok b := by
  cases x with
  | error e => cases h
  | ok a => exact ⟨a, rfl, h⟩

namespace Settings

theorem positive_ok {read kept : Option UInt64} (h : positive read = .ok kept) : kept = read ∧ read ≠ some 0 := by
  cases read with
  | none =>
    cases h
    exact ⟨rfl, fun hzero => by cases hzero⟩
  | some n =>
    by_cases hn : n = 0
    · simp [positive, hn] at h
    · simp only [positive, hn, if_false, Except.ok.injEq] at h
      exact ⟨h.symm, fun hzero => hn (Option.some.inj hzero)⟩

theorem readOptional_ok {α : Type} {read : String → Except SettingFault α} {value : Option String} {kept : Option α}
    (h : readOptional read value = .ok kept) (a : α) :
    kept = some a ↔ ∃ text, value = some text ∧ read text = .ok a := by
  cases value with
  | none =>
    cases h
    simp
  | some text =>
    cases ha : read text with
    | error e =>
      rw [readOptional, ha] at h
      cases h
    | ok b =>
      rw [readOptional, ha] at h
      cases h
      simp [ha]

theorem maxLimit_ofLookup {lookup : String → Option String} {settings : Settings}
    (h : ofLookup lookup = .ok settings) : settings.maxLimit ≠ some 0 ∧
      ∀ m, settings.maxLimit = some m ↔
        ∃ text, lookup "PAGEWRIGHT_MAX_LIMIT" = some text ∧ readUnsigned text = .ok m := by
  unfold ofLookup at h
  obtain ⟨backend, -, h⟩ := exists_ok_of_bind h
  obtain ⟨copy, -, h⟩ := exists_ok_of_bind h
  obtain ⟨idiom, -, h⟩ := exists_ok_of_bind h
  obtain ⟨timeout, -, h⟩ := exists_ok_of_bind h
  obtain ⟨read, hread, h⟩ := exists_ok_of_bind h
  obtain ⟨kept, hkept, h⟩ := exists_ok_of_bind h
  cases h
  obtain ⟨rfl, hzero⟩ := positive_ok hkept
  have hword : ∀ (text : String) (m : UInt64),
      asSetting .maxLimit (readUnsigned text) = .ok m ↔ readUnsigned text = .ok m := fun text m => by
    cases readUnsigned text <;> simp [asSetting]
  refine ⟨hzero, fun m => ?_⟩
  simp only [readOptional_ok hread, hword]

end Settings

namespace Request

theorem limit_ofSteps {steps : List RequestStep} {r : Request} (h : ofSteps steps = .ok r) : r.limit ≠ some 0 := by
  unfold ofSteps checked at h
  generalize steps.foldl step all = made at h
  split at h
  · cases h
  · next hlimit =>
    split at h
    · cases h
    · cases h
      exact hlimit

def Exceeds (r : Request) (m : UInt64) : Prop := ∀ n, r.limit = some n → m < n

instance (r : Request) (m : UInt64) : Decidable (r.Exceeds m) :=
  match h : r.limit with
  | none => .isTrue fun n hn => by rw [h] at hn; cases hn
  | some n => decidable_of_iff (m < n) ⟨fun hlt k hk => by rw [h] at hk; cases hk; exact hlt, fun hall => hall n h⟩

def within (r : Request) (m : UInt64) : Request := { r with limit := some (min m (r.limit.getD m)) }

theorem within_of_exceeds {r : Request} {m : UInt64} (h : r.Exceeds m) :
    r.capped? m = some (r.within m) ∧ (r.within m).limit = some m := by
  have hmin : min m (r.limit.getD m) = m := by
    cases hlimit : r.limit with
    | none => exact Std.min_self
    | some n => exact if_pos (UInt64.le_of_lt (h n hlimit))
  refine ⟨?_, congrArg some hmin⟩
  unfold capped? within
  rw [hmin]
  cases hlimit : r.limit with
  | none => rfl
  | some n => exact if_neg (UInt64.not_le.2 (h n hlimit))

theorem within_of_not_exceeds {r : Request} {m : UInt64} (h : ¬r.Exceeds m) :
    r.capped? m = none ∧ r.within m = r := by
  obtain ⟨offset, limit, ordering, required, optional⟩ := r
  cases limit with
  | none => exact absurd (fun n hn => by cases hn) h
  | some n =>
    have hle : n ≤ m := UInt64.not_lt.1 fun hlt => h fun k hk => Option.some.inj hk ▸ hlt
    have hmin : min m n = n := ite_eq_right_iff.2 fun hle' => UInt64.le_antisymm hle' hle
    exact ⟨if_pos hle, congrArg (fun n => Request.mk offset (some n) ordering required optional) hmin⟩

theorem not_exceeds_within (r : Request) (m : UInt64) : ¬(r.within m).Exceeds m := fun h => by
  have hlt := h _ rfl
  have hle : min m (r.limit.getD m) ≤ m := Std.min_le_left
  exact absurd hlt (UInt64.not_lt.2 hle)

end Request

/-! ## What a service plans -/

def Warning.isCapping : Warning → Bool
  | .capped _ _ => true
  | _ => false

/-- The service plans `q` where it is asked for `r`, warning of capping by `warned` and no more. -/
structure Service.Plans (s : Service) (r q : Request) (warned : List Warning) : Prop where
  cap : s.cap r = (warned, q)
  /-- What was capped is not capped again. -/
  again : s.cap q = ([], q)
  /-- Plans that are not run are those of `q`. -/
  plan : ∀ (wantCount : Bool) (recipe : Option Recipe),
    (s.plan r wantCount recipe).outcome = (s.build q wantCount recipe false).2 ∧
      (s.plan r wantCount recipe).warnings.filter Warning.isCapping = warned
  /-- A page whose plans cannot be made asks for no rows, -/
  unplanned : ∀ {α : Type} (decode : Json → Except String α) (requireProjection wantCount : Bool)
    (recipe : Option Recipe) (e : Failure), (s.build q wantCount recipe requireProjection).2 = .error e →
    (s.page decode requireProjection r wantCount recipe).calls = [] ∧
      (s.page decode requireProjection r wantCount recipe).outcome = .error e
  /-- and otherwise it asks for the rows of `q`. -/
  rows : ∀ {α : Type} (decode : Json → Except String α) (requireProjection wantCount : Bool)
    (recipe : Option Recipe) (plan : PagePlan), (s.build q wantCount recipe requireProjection).2 = .ok plan →
    (s.page decode requireProjection r wantCount recipe).calls =
      .rows plan.data :: if (s.database.rows plan.data).isOk then plan.count.toList.map Call.count else []
  warnings : ∀ {α : Type} (decode : Json → Except String α) (requireProjection wantCount : Bool)
    (recipe : Option Recipe),
    (s.page decode requireProjection r wantCount recipe).warnings.filter Warning.isCapping = warned

namespace Service

theorem isCapping_build {s : Service} {r : Request} {wantCount : Bool} {recipe : Option Recipe}
    {requireProjection : Bool} : (s.build r wantCount recipe requireProjection).1.filter Warning.isCapping = [] := by
  unfold build
  split
  · rfl
  · simp [Warning.isCapping]

theorem isCapping_pageOf {α : Type} (decode : Json → Except String α) (plan : PagePlan) (offset : UInt64)
    (rows : List Json) (count : Option Int64) :
    (pageOf decode plan offset rows count).1.filter Warning.isCapping = [] := by
  unfold pageOf
  split
  · rfl
  · simp only [lowCount]
    split
    · split <;> rfl
    · rfl

theorem warnings_page {α : Type} (s : Service) (decode : Json → Except String α) (requireProjection : Bool)
    (r : Request) (wantCount : Bool) (recipe : Option Recipe) : ∃ low,
      (s.page decode requireProjection r wantCount recipe).warnings =
        (s.cap r).1 ++ (s.build (s.cap r).2 wantCount recipe requireProjection).1 ++ low ∧
      low.filter Warning.isCapping = [] := by
  unfold page
  cases hplanned : (s.build (s.cap r).2 wantCount recipe requireProjection).2 with
  | error e => exact ⟨[], by simp only [hplanned, List.append_nil], rfl⟩
  | ok plan =>
    rcases hfetch : fetch s.database plan with ⟨calls, e | ⟨rows, count⟩⟩
    · exact ⟨[], by simp only [hplanned, hfetch, List.append_nil], rfl⟩
    · exact ⟨_, by simp only [hplanned, hfetch], isCapping_pageOf decode plan (s.cap r).2.offset rows count⟩

theorem isCapping_cap (s : Service) (r : Request) : (s.cap r).1.filter Warning.isCapping = (s.cap r).1 := by
  unfold cap
  split <;> rfl

theorem plans_of_cap {s : Service} {r q : Request} {warned : List Warning} (hcap : s.cap r = (warned, q))
    (hagain : s.cap q = ([], q)) : s.Plans r q warned := by
  have hwarned : warned.filter Warning.isCapping = warned := by
    have h := isCapping_cap s r
    rwa [hcap] at h
  have hq : (s.cap r).2 = q := congrArg Prod.snd hcap
  refine
    { cap := hcap
      again := hagain
      plan := fun wantCount recipe => ?_
      unplanned := fun decode requireProjection wantCount recipe e he => page_unplanned decode (hq ▸ he)
      rows := fun decode requireProjection wantCount recipe plan hplan => ?_
      warnings := fun decode requireProjection wantCount recipe => ?_ }
  · unfold Service.plan
    rw [hcap]
    exact ⟨rfl, by simp only [List.filter_append, hwarned, isCapping_build, List.append_nil]⟩
  · rw [(page_planned decode (hq ▸ hplan)).1, calls_fetch]
  · obtain ⟨low, hwarnings, hlow⟩ := warnings_page s decode requireProjection r wantCount recipe
    rw [hwarnings, hcap, List.filter_append, List.filter_append, hwarned, isCapping_build, hlow, List.append_nil,
      List.append_nil]

theorem cap_of_unlimited {s : Service} (hmax : s.maxLimit = none) (r : Request) : s.cap r = ([], r) := by
  unfold cap
  rw [hmax]
  rfl

theorem cap_of_maxLimit {s : Service} {m : UInt64} (hmax : s.maxLimit = some m) (r : Request) :
    s.cap r = (if r.Exceeds m then [.capped r.limit (r.within m).limit] else [], r.within m) := by
  unfold cap
  rw [hmax, Option.bind_some]
  by_cases h : r.Exceeds m
  · rw [(Request.within_of_exceeds h).1, if_pos h]
  · rw [(Request.within_of_not_exceeds h).1, (Request.within_of_not_exceeds h).2, if_neg h]

theorem limit_build {s : Service} {r : Request} {wantCount : Bool} {recipe : Option Recipe} {requireProjection : Bool}
    {plan : PagePlan} (h : (s.build r wantCount recipe requireProjection).2 = .ok plan) {l : UInt64}
    (hl : r.limit = some l) : plan.data.statement.limit = some l := by
  unfold build at h
  split at h
  · cases h
  · obtain ⟨p, -, hdata, -⟩ := build_ok h
    obtain ⟨scope, orders, hparts⟩ := dataPlan_ok hdata
    rw [(hparts.range hdata).2, hl, Option.some_or]

/-- **A greatest limit is kept to.**  Settings name one or none; without one, requests are planned as they are, and
under one each with the smaller of that limit and its own, which its rows are then read under. -/
theorem plans_within_maxLimit {lookup : String → Option String} {settings : Settings}
    (hsettings : Settings.ofLookup lookup = .ok settings) {steps : List RequestStep} {r : Request}
    (hr : Request.ofSteps steps = .ok r) (catalog : Catalog) (database : Database) (entity : String) :
    let s := (ofSettings catalog database entity settings).2
    (∀ m, s.maxLimit = some m ↔
        ∃ text, lookup "PAGEWRIGHT_MAX_LIMIT" = some text ∧ readUnsigned text = .ok m) ∧
      (s.maxLimit = none → s.Plans r r []) ∧
      ∀ m, s.maxLimit = some m → ∃ l, 1 ≤ l ∧ l ≤ m ∧ l = min m (r.limit.getD m) ∧
        s.Plans r { r with limit := some l } (if r.Exceeds m then [.capped r.limit (some l)] else []) ∧
        ∀ wantCount recipe requireProjection plan,
          (s.build { r with limit := some l } wantCount recipe requireProjection).2 = .ok plan →
            plan.data.statement.limit = some l := by
  intro s
  obtain ⟨hpositive, hmax⟩ := Settings.maxLimit_ofLookup hsettings
  refine ⟨hmax, fun hnone => plans_of_cap (cap_of_unlimited hnone r) (cap_of_unlimited hnone r), fun m hm => ?_⟩
  have hagain : s.cap (r.within m) = ([], r.within m) := by
    have hnot := r.not_exceeds_within m
    rw [cap_of_maxLimit hm, if_neg hnot, (Request.within_of_not_exceeds hnot).2]
  have hnonzero : min m (r.limit.getD m) ≠ 0 := by
    have hm0 : m ≠ 0 := fun hzero => hpositive (hzero ▸ hm)
    rcases Std.min_eq_or (a := m) (b := r.limit.getD m) with h | h <;> rw [h]
    · exact hm0
    · cases hlimit : r.limit with
      | none => exact hm0
      | some n => exact fun hzero => Request.limit_ofSteps hr (hlimit.trans (congrArg some hzero))
  exact ⟨min m (r.limit.getD m), UInt64.le_iff_toNat_le.2 (Nat.pos_of_ne_zero fun h => hnonzero (UInt64.toNat_inj.1 h)),
    Std.min_le_left, rfl, plans_of_cap (cap_of_maxLimit hm r) hagain,
    fun wantCount recipe requireProjection plan hplan => limit_build hplan rfl⟩

end Service

namespace Sample

def fiftyRows (name : String) : Option String := if name = "PAGEWRIGHT_MAX_LIMIT" then some "50" else none
def fiftyRowsSettings : Settings := { Settings.standard with maxLimit := some 50 }

def fiftyMembers : Service := (Service.ofSettings club clubBooks "member" fiftyRowsSettings).2

end Sample

open Sample in
/-- Under a greatest limit of fifty, members from the tenth on are read fifty at a time where no limit was given, and
twenty at a time where twenty were asked for. -/
theorem members_within_fifty :
    Settings.ofLookup fiftyRows = .ok fiftyRowsSettings ∧
      (∃ r plan, Request.ofSteps [.offset 10] = .ok r ∧
        fiftyMembers.Plans r { r with limit := some 50 } [.capped none (some 50)] ∧
        (fiftyMembers.build { r with limit := some 50 } true none false).2 = .ok plan ∧
        plan.data.statement.limit = some 50) ∧
      ∃ r, Request.ofSteps [.offset 10, .limit 20] = .ok r ∧ fiftyMembers.Plans r r [] := by
  have hsettings : Settings.ofLookup fiftyRows = .ok fiftyRowsSettings := by
    obtain ⟨settings, hsettings, rfl⟩ := exists_ok (P := fun settings => settings = fiftyRowsSettings)
      (x := Settings.ofLookup fiftyRows) (by decide +kernel)
    exact hsettings
  have hall : Request.ofSteps [.offset 10] = .ok { Request.all with offset := 10 } := rfl
  have htwenty : Request.ofSteps [.offset 10, .limit 20] = .ok { Request.all with offset := 10, limit := some 20 } := rfl
  refine ⟨hsettings, ?_, _, htwenty, ?_⟩
  · obtain ⟨l, -, -, rfl, hplans, hlimit⟩ :=
      (Service.plans_within_maxLimit hsettings hall club clubBooks "member").2.2 50 rfl
    obtain ⟨plan, hplan, -⟩ := exists_ok (P := fun _ => True)
      (x := (fiftyMembers.build { Request.all with offset := 10, limit := some 50 } true none false).2)
      (by decide +kernel)
    exact ⟨_, plan, hall, hplans, hplan, hlimit true none false plan hplan⟩
  · obtain ⟨l, -, -, rfl, hplans, -⟩ :=
      (Service.plans_within_maxLimit hsettings htwenty club clubBooks "member").2.2 50 rfl
    exact hplans

end PageQuery
