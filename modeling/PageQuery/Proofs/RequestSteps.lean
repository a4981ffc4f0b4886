import PageQuery.Page.Request
import PageQuery.Proofs.Candidates
/-!
# Requests step by step

However the steps of making a request are mixed, each kind of them is read by itself.  Of offsets and of limits the last
one counts, and being unbounded is a limit among others.  Orderings are kept as they come.  Of required criteria the
first on a path decides the place and the last one what stands there, and the same holds of optional ones, neither
looking at the other.  What is wrong is found at the end: a last limit of zero, and otherwise the first ordering on a
path that was there before.
-/
namespace PageQuery

/-! ## What one step says -/

namespace RequestStep

def offset? : RequestStep → Option UInt64
  | .offset n => some n
  | _ => none

def limit? : RequestStep → Option (Option UInt64)
  | .limit n => some (some n)
  | .unbounded => some none
  | _ => none

def ordering? : RequestStep → Option Ordering
  | .orderBy path ascending => some ⟨path, ascending⟩
  | _ => none

def required? : RequestStep → Option Filter
  | .require path c => some ⟨path, c.criterion⟩
  | _ => none

def optional? : RequestStep → Option Filter
  | .prefer path c => some ⟨path, c.criterion⟩
  | _ => none

end RequestStep

/-! ## The last mention of a path -/

/-- The paths of the filters kept are those mentioned, each once and in the order of their first mention, and each
filter kept is the last one mentioned on its path. -/
structure LastMentions (mentioned kept : List Filter) : Prop where
  paths : FirstOccurrences (mentioned.map Filter.path) (kept.map Filter.path)
  last : ∀ f ∈ kept, (mentioned.filter fun g => g.path = f.path).getLast? = some f

theorem mem_putFilter {fs : List Filter} {path : String} {c : Criterion} {g : Filter} (h : g ∈ putFilter fs path c) :
    g = ⟨path, c⟩ ∨ g ∈ fs ∧ g.path ≠ path := by
  unfold putFilter at h
  split at h
  · obtain ⟨f, hf, rfl⟩ := List.mem_map.1 h
    split
    · exact .inl rfl
    · next hpath => exact .inr ⟨hf, hpath⟩
  · next hnone =>
    rcases List.mem_append.1 h with hg | hg
    · exact .inr ⟨hg, fun hpath => hnone (List.any_eq_true.2 ⟨g, hg, beq_iff_eq.2 hpath⟩)⟩
    · exact .inl (List.mem_singleton.1 hg)

def putFilter? (kept : List Filter) : Option Filter → List Filter
  | some f => putFilter kept f.path f.criterion
  | none => kept

namespace LastMentions
variable {mentioned kept : List Filter}

theorem nil : LastMentions [] [] := ⟨.nil, fun _ hf => absurd hf List.not_mem_nil⟩

theorem put (h : LastMentions mentioned kept) (f : Filter) :
    LastMentions (mentioned ++ [f]) (putFilter kept f.path f.criterion) where
  paths := by
    rw [paths_putFilter, List.map_append]
    exact h.paths.concat f.path
  last g hg := by
    rw [List.filter_append]
    rcases mem_putFilter hg with rfl | ⟨hg, hpath⟩
    · simp
    · simp [h.last g hg, hpath.symm]

theorem put? (h : LastMentions mentioned kept) (o : Option Filter) :
    LastMentions (mentioned ++ o.toList) (putFilter? kept o) := by
  cases o with
  | none => rwa [Option.toList_none, List.append_nil]
  | some f => exact h.put f

theorem unique {others : List Filter} (h : LastMentions mentioned kept) (hothers : LastMentions mentioned others) :
    kept = others := by
  have hread : ∀ {fs : List Filter}, LastMentions mentioned fs →
      (fs.map Filter.path).filterMap (fun path => (mentioned.filter fun g => g.path = path).getLast?) = fs := by
    intro fs hfs
    have hlast : ∀ f ∈ fs,
        ((fun path => (mentioned.filter fun g => g.path = path).getLast?) ∘ Filter.path) f = some f := hfs.last
    rw [List.filterMap_map, List.filterMap_congr hlast, List.filterMap_some]
  rw [← hread h, ← hread hothers, h.paths.unique hothers.paths]

end LastMentions

/-! ## What all steps make -/

/-- The request says what the steps do, each kind of them by itself. -/
structure Request.MadeBy (r : Request) (steps : List RequestStep) : Prop where
  offset : r.offset = (steps.filterMap RequestStep.offset?).getLast?.getD 0
  limit : r.limit = (steps.filterMap RequestStep.limit?).getLast?.getD none
  ordering : r.ordering = steps.filterMap RequestStep.ordering?
  required : LastMentions (steps.filterMap RequestStep.required?) r.required
  optional : LastMentions (steps.filterMap RequestStep.optional?) r.optional

namespace Request

theorem step_eq (r : Request) (s : RequestStep) : r.step s =
    ⟨s.offset?.getD r.offset, s.limit?.getD r.limit, r.ordering ++ s.ordering?.toList,
      putFilter? r.required s.required?, putFilter? r.optional s.optional?⟩ := by
  cases s with
  | orderBy => rfl
  | offset | limit | unbounded | require | prefer => simp [step, RequestStep.offset?, RequestStep.limit?,
      RequestStep.ordering?, RequestStep.required?, RequestStep.optional?, putFilter?]

theorem getLast?_getD_append {α : Type} (xs : List α) (o : Option α) (a : α) :
    (xs ++ o.toList).getLast?.getD a = o.getD (xs.getLast?.getD a) := by
  cases o <;> simp

theorem MadeBy.step {r : Request} {steps : List RequestStep} (h : r.MadeBy steps) (s : RequestStep) :
    (r.step s).MadeBy (steps ++ [s]) := by
  have hmore : ∀ {α : Type} (f : RequestStep → Option α),
      (steps ++ [s]).filterMap f = steps.filterMap f ++ (f s).toList := fun f => by
    rw [List.filterMap_append]
    cases hs : f s <;> simp [hs]
  rw [step_eq]
  constructor <;> rw [hmore]
  · rw [getLast?_getD_append, h.offset]
  · rw [getLast?_getD_append, h.limit]
  · rw [h.ordering]
  · exact h.required.put? _
  · exact h.optional.put? _

theorem madeBy_steps (steps : List RequestStep) : (steps.foldl step all).MadeBy steps := by
  induction steps using List.reverseRecOn with
  | nil => exact ⟨rfl, rfl, rfl, .nil, .nil⟩
  | append_singleton steps s ih =>
    rw [List.foldl_append]
    exact ih.step s

theorem MadeBy.regular {r : Request} {steps : List RequestStep} (h : r.MadeBy steps) :
    ∀ f ∈ r.required ++ r.optional, f.criterion.isRegular = true := by
  have hmentioned : ∀ {mention : RequestStep → Option Filter} {fs : List Filter},
      (∀ s f, mention s = some f → f.criterion.isRegular = true) → LastMentions (steps.filterMap mention) fs →
      ∀ f ∈ fs, f.criterion.isRegular = true := by
    intro mention fs hmention hfs f hf
    have hlast := List.mem_of_getLast? (hfs.last f hf)
    obtain ⟨s, -, hs⟩ := List.mem_filterMap.1 (List.mem_filter.1 hlast).1
    exact hmention s f hs
  rw [List.forall_mem_append]
  constructor
  · refine hmentioned (fun s f hs => ?_) h.required
    cases s with
    | require path c =>
      cases hs
      exact c.regular
    | offset | limit | unbounded | orderBy | prefer => cases hs
  · refine hmentioned (fun s f hs => ?_) h.optional
    cases s with
    | prefer path c =>
      cases hs
      exact c.regular
    | offset | limit | unbounded | orderBy | require => cases hs

end Request

/-! ## What is found at the end -/

theorem firstRepeated_eq_none : ∀ {os : List Ordering} {seen : List String}, seen.Nodup →
    (firstRepeated seen os = none ↔ (seen ++ os.map Ordering.path).Nodup)
  | [], seen, hseen => by simpa [firstRepeated] using hseen
  | o :: os, seen, hseen => by
    rw [firstRepeated, List.map_cons, List.perm_middle.nodup_iff, List.contains_eq_mem]
    by_cases ho : o.path ∈ seen
    · simp [ho]
    · rw [decide_eq_false ho, if_neg Bool.false_ne_true]
      exact firstRepeated_eq_none (List.nodup_cons.2 ⟨ho, hseen⟩)

theorem firstRepeated_eq_some : ∀ {os : List Ordering} {seen : List String} {path : String}, seen.Nodup →
    firstRepeated seen os = some path → ∃ before o after, os = before ++ o :: after ∧ o.path = path ∧
      (seen ++ before.map Ordering.path).Nodup ∧ path ∈ seen ++ before.map Ordering.path
  | [], seen, path, _, h => by cases h
  | o :: os, seen, path, hseen, h => by
    rw [firstRepeated, List.contains_eq_mem] at h
    by_cases ho : o.path ∈ seen
    · rw [decide_eq_true ho, if_pos rfl, Option.some_inj] at h
      subst h
      exact ⟨[], o, os, rfl, rfl, by simpa using hseen, by simpa using ho⟩
    · rw [decide_eq_false ho, if_neg Bool.false_ne_true] at h
      obtain ⟨before, p, after, rfl, hp, hnodup, hmem⟩ := firstRepeated_eq_some (List.nodup_cons.2 ⟨ho, hseen⟩) h
      refine ⟨o :: before, p, after, rfl, hp, ?_, ?_⟩
      · rw [List.map_cons, List.perm_middle.nodup_iff]
        exact hnodup
      · rw [List.map_cons, List.perm_middle.mem_iff]
        exact hmem

namespace Request

theorem checked_eq_ok {r q : Request} :
    r.checked = .ok q ↔ q = r ∧ r.limit ≠ some 0 ∧ (r.ordering.map Ordering.path).Nodup := by
  have hnone : firstRepeated [] r.ordering = none ↔ (r.ordering.map Ordering.path).Nodup :=
    firstRepeated_eq_none List.nodup_nil
  unfold checked
  rw [← hnone]
  by_cases hlimit : r.limit = some 0
  · simp [hlimit]
  · rw [if_neg hlimit]
    cases firstRepeated [] r.ordering with
    | some path => simp
    | none => simp [hlimit, eq_comm]

/-- A limit of zero is reported before an ordering that repeats a path. -/
theorem checked_eq_error {r : Request} {f : RequestFault} (h : r.checked = .error f) :
    (r.limit = some 0 ∧ f = .zeroLimit) ∨ r.limit ≠ some 0 ∧ ∃ before o after, r.ordering = before ++ o :: after ∧
      f = .duplicateOrdering o.path ∧ (before.map Ordering.path).Nodup ∧ o.path ∈ before.map Ordering.path := by
  unfold checked at h
  by_cases hlimit : r.limit = some 0
  · rw [if_pos hlimit] at h
    exact .inl ⟨hlimit, (Except.error.inj h).symm⟩
  · rw [if_neg hlimit] at h
    cases hfirst : firstRepeated [] r.ordering with
    | none =>
      rw [hfirst] at h
      cases h
    | some path =>
      rw [hfirst] at h
      cases h
      obtain ⟨before, o, after, hsplit, rfl, hnodup, hmem⟩ := firstRepeated_eq_some List.nodup_nil hfirst
      exact .inr ⟨hlimit, before, o, after, hsplit, rfl, hnodup, hmem⟩

end Request

/-- **A request is made of its steps.**  It is made just if the last limit is not zero and no path is ordered by twice,
and then it says what the steps do, the required criteria by themselves and the optional ones by themselves.  Otherwise
a limit of zero is reported if there is one, and else the first path that is ordered by again. -/
theorem request_made_of_steps (steps : List RequestStep) :
    let limits := steps.filterMap RequestStep.limit?
    let orderings := steps.filterMap RequestStep.ordering?
    ((∃ r, Request.ofSteps steps = .ok r) ↔
        limits.getLast? ≠ some (some 0) ∧ (orderings.map Ordering.path).Nodup) ∧
      (∀ r, Request.ofSteps steps = .ok r → r.MadeBy steps ∧ ∀ others q, Request.ofSteps others = .ok q →
        (others.filterMap RequestStep.required? = steps.filterMap RequestStep.required? → q.required = r.required) ∧
        (others.filterMap RequestStep.optional? = steps.filterMap RequestStep.optional? → q.optional = r.optional)) ∧
      ∀ f, Request.ofSteps steps = .error f →
        (limits.getLast? = some (some 0) ∧ f = .zeroLimit) ∨
          limits.getLast? ≠ some (some 0) ∧ ∃ before o after, orderings = before ++ o :: after ∧
            f = .duplicateOrdering o.path ∧ (before.map Ordering.path).Nodup ∧ o.path ∈ before.map Ordering.path := by
  intro limits orderings
  have hall := Request.madeBy_steps steps
  have hlimit : (steps.foldl Request.step .all).limit = some 0 ↔ limits.getLast? = some (some 0) := by
    rw [hall.limit]
    cases limits.getLast? <;> simp
  have hmade : ∀ {others q}, Request.ofSteps others = .ok q → q.MadeBy others := fun {others q} hq => by
    rw [(Request.checked_eq_ok.1 hq).1]
    exact Request.madeBy_steps others
  refine ⟨?_, fun r hr => ⟨hmade hr, fun others q hq => ?_⟩, fun f hf => ?_⟩
  · unfold Request.ofSteps
    simp only [Request.checked_eq_ok, exists_eq_left, ne_eq, hlimit, hall.ordering]
    rfl
  · refine ⟨fun hsame => ?_, fun hsame => ?_⟩
    · exact (hsame ▸ (hmade hq).required).unique (hmade hr).required
    · exact (hsame ▸ (hmade hq).optional).unique (hmade hr).optional
  · rcases Request.checked_eq_error hf with ⟨hzero, rfl⟩ | ⟨hzero, hrepeats⟩
    · exact .inl ⟨hlimit.1 hzero, rfl⟩
    · rw [hall.ordering] at hrepeats
      exact .inr ⟨mt hlimit.2 hzero, hrepeats⟩

-- the status asked for last, in the place of the first; an ordering that comes twice; and with a limit of zero, which is
-- reported first
example :
    Request.ofSteps [.require "status" (.value (.text "active")), .limit 0, .require "age" (.value (.integer 30)),
        .prefer "age" .null, .require "status" (.value (.text "inactive")), .limit 20] =
      .ok ⟨0, some 20, [], [⟨"status", .value (.text "inactive")⟩, ⟨"age", .value (.integer 30)⟩], [⟨"age", .null⟩]⟩ ∧
    Request.ofSteps [.orderBy "name" true, .orderBy "age" false, .orderBy "name" false] =
      .error (.duplicateOrdering "name") ∧
    Request.ofSteps [.orderBy "name" true, .unbounded, .limit 0, .orderBy "name" false] = .error .zeroLimit :=
  ⟨rfl, rfl, rfl⟩

end PageQuery
