import PageQuery.Proofs.Membership
/-!
# What text matches say

A text match compares in lower case, and its pattern may hold what is special to globs and what is special to LIKE.  The
pattern made for LIKE says the same: in an exact match the star and the question mark are special and nothing else is,
and at a start, at an end or inside a text no character is.
-/
namespace PageQuery

/-! ## Patterns of stars and question marks -/

/-- A pattern matches a whole text: a star any run of characters, a question mark any one, another character itself. -/
inductive Globs : List Char → List Char → Prop
  | nil : Globs [] []
  | star {p t : List Char} (run : List Char) (h : Globs p t) : Globs ('*' :: p) (run ++ t)
  | mark {p t : List Char} (x : Char) (h : Globs p t) : Globs ('?' :: p) (x :: t)
  | same {p t : List Char} {c : Char} (hstar : c ≠ '*') (hmark : c ≠ '?') (h : Globs p t) : Globs (c :: p) (c :: t)

namespace Globs

theorem nil_iff {t : List Char} : Globs [] t ↔ t = [] := by
  constructor
  · intro h
    cases h
    rfl
  · rintro rfl
    exact .nil

theorem star_iff {p t : List Char} : Globs ('*' :: p) t ↔ ∃ run u, t = run ++ u ∧ Globs p u := by
  constructor
  · intro h
    cases h with
    | star run h => exact ⟨run, _, rfl, h⟩
    | same hstar => exact absurd rfl hstar
  · rintro ⟨run, u, rfl, h⟩
    exact .star run h

theorem mark_iff {p t : List Char} : Globs ('?' :: p) t ↔ ∃ x u, t = x :: u ∧ Globs p u := by
  constructor
  · intro h
    cases h with
    | mark x h => exact ⟨x, _, rfl, h⟩
    | same _ hmark => exact absurd rfl hmark
  · rintro ⟨x, u, rfl, h⟩
    exact .mark x h

theorem same_iff {c : Char} (hstar : c ≠ '*') (hmark : c ≠ '?') {p t : List Char} :
    Globs (c :: p) t ↔ ∃ u, t = c :: u ∧ Globs p u := by
  constructor
  · intro h
    cases h with
    | star => exact absurd rfl hstar
    | mark => exact absurd rfl hmark
    | same _ _ h => exact ⟨_, rfl, h⟩
  · rintro ⟨u, rfl, h⟩
    exact .same hstar hmark h

theorem plain_iff {p t : List Char} (hp : ∀ c ∈ p, c ≠ '*' ∧ c ≠ '?') : Globs p t ↔ t = p := by
  induction p generalizing t with
  | nil => exact nil_iff
  | cons c p ih =>
    obtain ⟨hc, hp⟩ := List.forall_mem_cons.1 hp
    rw [same_iff hc.1 hc.2]
    constructor
    · rintro ⟨u, rfl, h⟩
      rw [(ih hp).1 h]
    · rintro rfl
      exact ⟨p, rfl, (ih hp).2 rfl⟩

end Globs

def MatchMode.Says (mode : MatchMode) (p t : List Char) : Prop :=
  match mode with
  | .exact => Globs p t
  | .startsWith => p <+: t
  | .endsWith => p <:+ t
  | .contains => p <:+: t

/-! ## Patterns of LIKE -/

theorem matchesLike_nil {t : List Char} : matchesLike [] t = true ↔ t = [] := by
  unfold matchesLike
  exact List.isEmpty_iff

theorem matchesLike_percent {p t : List Char} :
    matchesLike ('%' :: p) t = true ↔ ∃ run u, t = run ++ u ∧ matchesLike p u = true := by
  have hstep : matchesLike ('%' :: p) t = t.tails.any (matchesLike p) := by cases t <;> rfl
  rw [hstep, List.any_eq_true]
  constructor
  · rintro ⟨u, hu, h⟩
    obtain ⟨run, rfl⟩ := (List.mem_tails _ _).1 hu
    exact ⟨run, u, rfl, h⟩
  · rintro ⟨run, u, rfl, h⟩
    exact ⟨u, (List.mem_tails _ _).2 ⟨run, rfl⟩, h⟩

theorem matchesLike_underscore {p t : List Char} :
    matchesLike ('_' :: p) t = true ↔ ∃ x u, t = x :: u ∧ matchesLike p u = true := by
  cases t <;> simp [matchesLike]

theorem matchesLike_escapeLike (c : Char) {p t : List Char} :
    matchesLike (escapeLike c ++ p) t = true ↔ ∃ u, t = c :: u ∧ matchesLike p u = true := by
  cases t with
  | nil =>
    unfold escapeLike
    split
    · simp [matchesLike]
    · next hc => simp_all [matchesLike]
  | cons x t =>
    have hstep : matchesLike (escapeLike c ++ p) (x :: t) = (c == x && matchesLike p t) := by
      unfold escapeLike
      split
      · rfl
      · next hc => simp_all [matchesLike]
    rw [hstep, Bool.and_eq_true, beq_iff_eq]
    constructor
    · rintro ⟨rfl, h⟩
      exact ⟨t, rfl, h⟩
    · rintro ⟨u, hu, h⟩
      cases hu
      exact ⟨rfl, h⟩

theorem matchesLike_escaped (cs : List Char) {p t : List Char} :
    matchesLike (cs.flatMap escapeLike ++ p) t = true ↔ ∃ u, t = cs ++ u ∧ matchesLike p u = true := by
  induction cs generalizing t with
  | nil => simp
  | cons c cs ih =>
    rw [List.flatMap_cons, List.append_assoc, matchesLike_escapeLike]
    constructor
    · rintro ⟨u, rfl, h⟩
      obtain ⟨v, rfl, hv⟩ := ih.1 h
      exact ⟨v, rfl, hv⟩
    · rintro ⟨v, rfl, hv⟩
      exact ⟨cs ++ v, rfl, ih.2 ⟨v, rfl, hv⟩⟩

/-- **A pattern of stars and question marks keeps its meaning** when it is made one of LIKE. -/
theorem matchesLike_wildcards (p : List Char) {t : List Char} :
    matchesLike (p.flatMap wildcardLike) t = true ↔ Globs p t := by
  induction p generalizing t with
  | nil => rw [List.flatMap_nil, matchesLike_nil, Globs.nil_iff]
  | cons c p ih =>
    rw [List.flatMap_cons]
    by_cases hstar : c = '*'
    · subst hstar
      rw [Globs.star_iff]
      exact matchesLike_percent.trans (exists₂_congr fun _ _ => and_congr_right fun _ => ih)
    · by_cases hmark : c = '?'
      · subst hmark
        rw [Globs.mark_iff]
        exact matchesLike_underscore.trans (exists₂_congr fun _ _ => and_congr_right fun _ => ih)
      · have hplain : wildcardLike c = escapeLike c := by
          unfold wildcardLike
          rw [if_neg hstar, if_neg hmark]
        rw [hplain, matchesLike_escapeLike, Globs.same_iff hstar hmark]
        exact exists_congr fun _ => and_congr_right fun _ => ih

instance (p t : List Char) : Decidable (Globs p t) := decidable_of_iff _ (matchesLike_wildcards p)

instance (mode : MatchMode) (p t : List Char) : Decidable (mode.Says p t) :=
  match mode with
  | .exact => inferInstanceAs (Decidable (Globs p t))
  | .startsWith => inferInstanceAs (Decidable (p <+: t))
  | .endsWith => inferInstanceAs (Decidable (p <:+ t))
  | .contains => inferInstanceAs (Decidable (p <:+: t))

/-! ## The pattern that is made -/

def replaced (c : Char) (others : List Char) (cs : List Char) : List Char :=
  cs.flatMap fun x => if x = c then others else [x]

/-- The pattern of LIKE, as replacing one character after the other makes it: the backslash first, for it escapes what
comes next, and the wildcards last, for what they become must not be escaped. -/
def MatchMode.rewritten (mode : MatchMode) (cs : List Char) : List Char :=
  let escaped := replaced '_' ['\\', '_'] (replaced '%' ['\\', '%'] (replaced '\\' ['\\', '\\'] cs))
  match mode with
  | .exact => replaced '?' ['_'] (replaced '*' ['%'] escaped)
  | .startsWith => escaped ++ ['%']
  | .endsWith => '%' :: escaped
  | .contains => '%' :: escaped ++ ['%']

theorem flatMap_escapeLike (cs : List Char) :
    cs.flatMap escapeLike =
      replaced '_' ['\\', '_'] (replaced '%' ['\\', '%'] (replaced '\\' ['\\', '\\'] cs)) := by
  unfold replaced
  rw [List.flatMap_assoc, List.flatMap_assoc]
  refine List.flatMap_congr fun c _ => ?_
  by_cases hc : c = '\\' ∨ c = '%' ∨ c = '_'
  · rcases hc with rfl | rfl | rfl <;> decide
  · obtain ⟨hslash, hpercent, hunder⟩ : c ≠ '\\' ∧ c ≠ '%' ∧ c ≠ '_' := by simpa only [not_or] using hc
    simp [escapeLike, hslash, hpercent, hunder]

theorem flatMap_wildcardLike (cs : List Char) :
    cs.flatMap wildcardLike = replaced '?' ['_'] (replaced '*' ['%'] (cs.flatMap escapeLike)) := by
  unfold replaced
  rw [List.flatMap_assoc, List.flatMap_assoc]
  refine List.flatMap_congr fun c _ => ?_
  by_cases hstar : c = '*'
  · subst hstar
    decide
  · by_cases hmark : c = '?'
    · subst hmark
      decide
    · by_cases hescaped : c = '\\' ∨ c = '%' ∨ c = '_'
      · rcases hescaped with rfl | rfl | rfl <;> decide
      · simp [wildcardLike, escapeLike, hstar, hmark, hescaped]

variable {mode : MatchMode} {cs pattern : List Char}

theorem eq_rewritten_of_likeChars? (h : likeChars? mode cs = some pattern) : pattern = mode.rewritten cs := by
  unfold MatchMode.rewritten
  rw [← flatMap_escapeLike]
  unfold likeChars? at h
  cases mode with
  | exact =>
    simp only at h
    split at h
    · cases h
      exact flatMap_wildcardLike cs
    · cases h
  | startsWith | endsWith | contains =>
    cases h
    rfl

/-- **The pattern says what the match says.** -/
theorem matchesLike_iff_says (h : likeChars? mode cs = some pattern) (t : List Char) :
    matchesLike pattern t = true ↔ mode.Says cs t := by
  have hany : ∀ t, matchesLike ['%'] t = true := fun t =>
    matchesLike_percent.2 ⟨t, [], by simp, matchesLike_nil.2 rfl⟩
  have hends : ∀ t, matchesLike (cs.flatMap escapeLike) t = true ↔ t = cs := fun t => by
    have hescaped := matchesLike_escaped cs (p := []) (t := t)
    rw [List.append_nil] at hescaped
    rw [hescaped]
    constructor
    · rintro ⟨u, rfl, hu⟩
      rw [matchesLike_nil.1 hu, List.append_nil]
    · rintro rfl
      exact ⟨[], (List.append_nil t).symm, matchesLike_nil.2 rfl⟩
  unfold likeChars? at h
  unfold MatchMode.Says
  cases mode with
  | exact =>
    simp only at h
    split at h
    · cases h
      exact matchesLike_wildcards cs
    · cases h
  | startsWith =>
    cases h
    rw [matchesLike_escaped]
    constructor
    · rintro ⟨u, rfl, -⟩
      exact List.prefix_append cs u
    · rintro ⟨u, rfl⟩
      exact ⟨u, rfl, hany u⟩
  | endsWith =>
    cases h
    rw [matchesLike_percent]
    simp only [hends]
    constructor
    · rintro ⟨run, u, rfl, rfl⟩
      exact List.suffix_append run u
    · rintro ⟨run, rfl⟩
      exact ⟨run, cs, rfl, rfl⟩
  | contains =>
    cases h
    rw [List.cons_append, matchesLike_percent]
    simp only [matchesLike_escaped]
    constructor
    · rintro ⟨run, u, rfl, v, rfl, -⟩
      exact ⟨run, v, List.append_assoc run cs v⟩
    · rintro ⟨run, v, rfl⟩
      exact ⟨run, cs ++ v, List.append_assoc run cs v, v, rfl, hany v⟩

theorem says_iff_eq (h : likeChars? mode cs = none) (t : List Char) : mode.Says cs t ↔ t = cs := by
  unfold likeChars? at h
  cases mode with
  | exact =>
    simp only [ite_eq_right_iff, reduceCtorEq, imp_false, List.any_eq_true, Bool.or_eq_true, beq_iff_eq,
      not_exists, not_and, not_or] at h
    exact Globs.plain_iff h
  | startsWith | endsWith | contains => cases h

/-! ## The predicate -/

/-- The database reads text by the standard: a text equals itself only, and LIKE matches as its pattern says. -/
structure Dialect.ReadsText (d : Dialect) : Prop where
  equal : ∀ s t, d.rank (.text s) = d.rank (.text t) → s = t
  like : ∀ s pattern, d.like (.text s) pattern = matchesLike pattern.toList s.toList

theorem readsText_plain : Dialect.plain.ReadsText := ⟨exact_plain.text, fun _ _ => rfl⟩

/-- **A text match is true of what it says.**  On a text or an enumeration it always has a predicate, and where the
column in lower case is a text, the predicate is true just if the text is, starts with, ends with or contains what the
pattern is in lower case: whole texts with `*` and `?` as wildcards, parts of texts character by character.  A pattern
for LIKE comes of replacing one special character after the other. -/
theorem textMatch_says (m : TextMatch) (e : Expr) {type : ValueType}
    (htype : type = .text ∨ ∃ enum, type = .enumerated enum) :
    ∃ x, (m.build e type).outcome = .ok x ∧
      (∀ pattern, x = .like (.call .lower e) pattern →
        pattern.toList = m.mode.rewritten (lowercase m.pattern).toList) ∧
      ∀ (d : Dialect) (db : Store) (g : List Tuple) (t : String), d.ReadsText →
        (Expr.call .lower e).eval d db g = some (.text t) →
        (isTrue (x.eval d db g) = true ↔ m.mode.Says (lowercase m.pattern).toList t.toList) := by
  have htextual : type.isTextual = true := by
    rcases htype with rfl | ⟨enum, rfl⟩ <;> rfl
  unfold TextMatch.build
  rw [if_pos htextual]
  cases hlike : likeChars? m.mode (lowercase m.pattern).toList with
  | none =>
    have hnone : m.like? = none := by
      unfold TextMatch.like?
      rw [hlike]
      rfl
    rw [hnone]
    refine ⟨.compare .eq (.call .lower e) (.value (.text (lowercase m.pattern))), rfl, fun _ h => (by cases h),
      fun d db g t hd ht => ?_⟩
    rw [says_iff_eq hlike, String.toList_inj, Expr.eval, ht, Expr.eval]
    have hcompare : isTrue (d.compare .eq (some (.text t)) (some (.text (lowercase m.pattern)))) =
        decide (d.rank (.text t) = d.rank (.text (lowercase m.pattern))) := rfl
    rw [hcompare, decide_eq_true_eq]
    exact ⟨hd.equal _ _, fun h => h ▸ rfl⟩
  | some pattern =>
    have hsome : m.like? = some (String.ofList pattern) := by
      unfold TextMatch.like?
      rw [hlike]
      rfl
    rw [hsome]
    refine ⟨.like (.call .lower e) (String.ofList pattern), rfl, fun _ h => ?_, fun d db g t hd ht => ?_⟩
    · cases h
      rw [String.toList_ofList]
      exact eq_rewritten_of_likeChars? hlike
    · rw [← matchesLike_iff_says hlike, Expr.eval, ht]
      have htrue : isTrue ((some (Value.text t)).map fun v => .boolean (d.like v (String.ofList pattern))) =
          d.like (.text t) (String.ofList pattern) := rfl
      rw [htrue, hd.like, String.toList_ofList]

namespace Sample

def reduced : TextMatch := ⟨"50%_O*\\?", .exact⟩

def named (name : String) : List Tuple := [[("e", row [("name", .text name)])]]

end Sample

open Sample in
/-- Per cent signs, underscores and backslashes are themselves, while a star and a question mark are wildcards. -/
theorem reduced_names_matched :
    ∃ x, (reduced.build (.col "e" "name") .text).outcome = .ok x ∧
      isTrue (x.eval .plain store (named "50%_Off, now\\!")) = true ∧
      isTrue (x.eval .plain store (named "50 coffees\\!")) = false := by
  obtain ⟨x, hx, -, hsays⟩ := textMatch_says reduced (.col "e" "name") (.inl rfl)
  have hmatched := hsays .plain store (named "50%_Off, now\\!") "50%_off, now\\!" readsText_plain (by decide +kernel)
  have hother := hsays .plain store (named "50 coffees\\!") "50 coffees\\!" readsText_plain (by decide +kernel)
  refine ⟨x, hx, hmatched.2 (by decide +kernel), ?_⟩
  rw [Bool.eq_false_iff, ne_eq, hother]
  decide +kernel

end PageQuery
