import PageQuery.Proofs.Paths
/-!
# Paths with many values

A path has many values for one root row when it crosses a to-many relation or ends in a collection.  That is read off
the catalog, marks aside.  A filter on such a path makes a to-many join: the keys of a path's joins differ from each
other, so none of them is taken for another.
-/
namespace PageQuery

/-- Whether one of the names has many values, each looked up in the entity that the one before it leads to. -/
def Catalog.manyAmong (c : Catalog) : Entity → List String → Bool
  | _, [] => false
  | e, name :: names =>
    match e.lookup? name with
    | none => false
    | some a => a.isCollection || ((targetOf a.storage).bind c.entity?).any fun target => c.manyAmong target names

def Catalog.manyAlong (c : Catalog) (root : Entity) (path : String) : Bool :=
  match FieldPath.parse path with
  | .error _ => false
  | .ok segments =>
    match parseMarker path segments.last with
    | .error _ => false
    | .ok (name, _) => c.manyAmong root (segments.parents ++ [name])

/-! ## Splitting what was joined -/

section
variable {sep : Char}

theorem splitChars_of_notMem : ∀ {cs : List Char}, sep ∉ cs → splitChars sep cs = [cs]
  | [], _ => rfl
  | c :: cs, h => by
    have hc : ¬c = sep := fun hc => h (hc ▸ List.mem_cons_self)
    have hcs := splitChars_of_notMem fun hmem => h (List.mem_cons_of_mem c hmem)
    rw [splitChars, hcs]
    exact if_neg hc

theorem splitChars_append {rest : List Char} : ∀ {cs : List Char}, sep ∉ cs →
    splitChars sep (cs ++ sep :: rest) = cs :: splitChars sep rest
  | [], _ => by
    obtain ⟨piece, pieces, hrest⟩ := List.exists_cons_of_ne_nil (splitChars_ne_nil sep rest)
    rw [List.nil_append, splitChars, hrest]
    exact if_pos rfl
  | c :: cs, h => by
    have hc : ¬c = sep := fun hc => h (hc ▸ List.mem_cons_self)
    have hcs : splitChars sep (cs ++ sep :: rest) = cs :: splitChars sep rest :=
      splitChars_append fun hmem => h (List.mem_cons_of_mem c hmem)
    rw [List.cons_append, splitChars, hcs]
    exact if_neg hc

theorem mem_of_mem_splitChars {c : Char} : ∀ {cs piece : List Char}, piece ∈ splitChars sep cs → c ∈ piece →
    c ∈ cs ∧ c ≠ sep
  | [], piece, h, hc => by
    rw [List.mem_singleton.1 h] at hc
    cases hc
  | x :: cs, piece, h, hc => by
    obtain ⟨first, pieces, hcs⟩ := List.exists_cons_of_ne_nil (splitChars_ne_nil sep cs)
    have hrest : ∀ p ∈ first :: pieces, c ∈ p → c ∈ cs ∧ c ≠ sep := by
      rw [← hcs]
      exact fun p hp => mem_of_mem_splitChars hp
    rw [splitChars, hcs] at h
    simp only at h
    by_cases hx : x = sep
    · rw [if_pos hx] at h
      rcases List.mem_cons.1 h with rfl | h
      · cases hc
      · exact (hrest piece h hc).imp_left (List.mem_cons_of_mem x)
    · rw [if_neg hx] at h
      rcases List.mem_cons.1 h with rfl | h
      · rcases List.mem_cons.1 hc with rfl | hc
        · exact ⟨List.mem_cons_self, hx⟩
        · exact (hrest first List.mem_cons_self hc).imp_left (List.mem_cons_of_mem x)
      · exact (hrest piece (List.mem_cons_of_mem first h) hc).imp_left (List.mem_cons_of_mem x)

end

theorem mem_of_mem_splitText {c sep : Char} {s segment : String} (h : segment ∈ splitText sep s)
    (hc : c ∈ segment.toList) : c ∈ s.toList ∧ c ≠ sep := by
  obtain ⟨piece, hpiece, rfl⟩ := List.mem_map.1 h
  rw [String.toList_ofList] at hc
  exact mem_of_mem_splitChars hpiece hc

theorem splitText_joinText {sep : Char} {text : String} (htext : text.toList = [sep]) :
    ∀ {segments : List String}, segments ≠ [] → (∀ s ∈ segments, sep ∉ s.toList) →
      splitText sep (joinText text segments) = segments
  | [], h, _ => absurd rfl h
  | [s], _, hseps => by
    rw [joinText, splitText, splitChars_of_notMem (hseps s List.mem_cons_self), List.map_singleton,
      String.ofList_toList]
  | s :: t :: rest, _, hseps => by
    have hrest := splitText_joinText htext (List.cons_ne_nil t rest) fun x hx => hseps x (List.mem_cons_of_mem s hx)
    have hlist : (joinText text (s :: t :: rest)).toList = s.toList ++ sep :: (joinText text (t :: rest)).toList := by
      show (s ++ text ++ joinText text (t :: rest)).toList = _
      simp [htext]
    rw [splitText, hlist, splitChars_append (hseps s List.mem_cons_self), List.map_cons, String.ofList_toList]
    exact congrArg (s :: ·) hrest

/-! ## Marked paths -/

theorem FieldPath.parse_ok {path : String} {segments : FieldPath} (h : FieldPath.parse path = .ok segments) :
    splitText '.' path = segments.parents ++ [segments.last] ∧ ∀ s ∈ segments.parents, s ≠ "" := by
  have hne : splitText '.' path ≠ [] := fun hnil => splitChars_ne_nil '.' path.toList (List.map_eq_nil_iff.1 hnil)
  unfold FieldPath.parse at h
  simp only at h
  split at h
  · cases h
  · next hempty =>
    cases h
    refine ⟨?_, fun s hs hs' => hempty (List.any_eq_true.2 ⟨s, List.dropLast_subset _ hs, ?_⟩)⟩
    · have hlast : (splitText '.' path).getLastD "" = (splitText '.' path).getLast hne := by
        rw [List.getLastD_eq_getLast?, List.getLast?_eq_some_getLast hne, Option.getD_some]
      rw [hlast, List.dropLast_concat_getLast hne]
    · rw [hs']
      rfl

theorem parse_marked {path closing : String} {segments : FieldPath} (hclosing : '.' ∉ closing.toList)
    (h : FieldPath.parse path = .ok segments) :
    FieldPath.parse (markLast "@" closing path) = .ok ⟨segments.parents, "@" ++ segments.last ++ closing⟩ := by
  obtain ⟨hsplit, hparents⟩ := FieldPath.parse_ok h
  have hdots : ∀ s ∈ segments.parents ++ ["@" ++ segments.last ++ closing], '.' ∉ s.toList := by
    intro s hs hdot
    rcases List.mem_append.1 hs with hs | hs
    · have hmem : s ∈ splitText '.' path := by
        rw [hsplit]
        exact List.mem_append_left _ hs
      exact (mem_of_mem_splitText hmem hdot).2 rfl
    · have hmem : segments.last ∈ splitText '.' path := by
        rw [hsplit]
        exact List.mem_append_right _ List.mem_cons_self
      rw [List.mem_singleton.1 hs] at hdot
      have hlast : '.' ∈ segments.last.toList := by simpa [hclosing] using hdot
      exact (mem_of_mem_splitText hmem hlast).2 rfl
  have hmarked : splitText '.' (markLast "@" closing path) = segments.parents ++ ["@" ++ segments.last ++ closing] := by
    unfold markLast
    simp only [hsplit, List.dropLast_concat, List.getLastD_concat]
    exact splitText_joinText rfl (by simp) hdots
  unfold FieldPath.parse
  simp only [hmarked, List.dropLast_concat, List.getLastD_concat]
  refine if_neg fun hany => ?_
  obtain ⟨s, hs, hempty⟩ := List.any_eq_true.1 hany
  rw [String.isEmpty_iff] at hempty
  rcases List.mem_append.1 hs with hs | hs
  · exact hparents s hs hempty
  · rw [List.mem_singleton.1 hs] at hempty
    simpa using congrArg String.toList hempty

theorem notMem_of_unmarked {path : String} {segments : FieldPath} (h : FieldPath.parse path = .ok segments)
    (hunmarked : hasChar '@' path = false) : ∀ x ∈ segments.parents ++ [segments.last], '@' ∉ x.toList := by
  intro x hx hmem
  rw [← (FieldPath.parse_ok h).1] at hx
  have hmarked : hasChar '@' path = true := List.contains_iff_mem.2 (mem_of_mem_splitText hx hmem).1
  rw [hunmarked] at hmarked
  cases hmarked

theorem notMem_last_of_unmarked {path : String} {segments : FieldPath} (h : FieldPath.parse path = .ok segments)
    (hunmarked : hasChar '@' path = false) : '@' ∉ segments.last.toList :=
  notMem_of_unmarked h hunmarked _ (List.mem_append_right _ List.mem_cons_self)

theorem parseMarker_unmarked {path last name : String} {marker : Marker}
    (h : parseMarker path last = .ok (name, marker)) (hplain : '@' ∉ last.toList) :
    name = last ∧ marker = .plain ∧ last.toList ≠ [] := by
  unfold parseMarker at h
  simp only at h
  split at h
  · next rest hlast =>
    rw [hlast] at hplain
    exact absurd List.mem_cons_self hplain
  · rcases ite_eq_iff.1 h with ⟨-, herror⟩ | ⟨hcond, hok⟩
    · cases herror
    · cases hok
      refine ⟨String.ofList_toList, rfl, fun hnil => hcond ?_⟩
      rw [hnil]
      rfl

theorem parseMarker_plain {name : String} (hne : name ≠ "") (hplain : '@' ∉ name.toList) (path : String) :
    parseMarker path name = .ok (name, .plain) := by
  have hnil : name.toList ≠ [] := fun hnil => hne (String.toList_eq_nil_iff.1 hnil)
  unfold parseMarker
  simp only
  split
  · next rest hlist => exact absurd (hlist ▸ List.mem_cons_self) hplain
  · simp [hnil, hplain]

theorem parseMarker_membership {path last name : String} {marker : Marker} (path' : String)
    (h : parseMarker path last = .ok (name, marker)) (hplain : '@' ∉ last.toList) :
    parseMarker path' ("@" ++ last ++ "@") = .ok (name, .membership) := by
  obtain ⟨rfl, -, hne⟩ := parseMarker_unmarked h hplain
  have hlist : ("@" ++ name ++ "@").toList = '@' :: (name.toList ++ ['@']) := by simp
  unfold parseMarker
  rw [hlist]
  simp only [List.getLast?_concat, if_true, List.dropLast_concat, String.ofList_toList]
  refine if_neg ?_
  simp [hne, hplain]

theorem parseMarker_shared {path last name : String} {marker : Marker} (path' : String)
    (h : parseMarker path last = .ok (name, marker)) (hplain : '@' ∉ last.toList) :
    parseMarker path' ("@" ++ last ++ "") = .ok (name, .shared) := by
  obtain ⟨rfl, -, hne⟩ := parseMarker_unmarked h hplain
  have hlist : ("@" ++ name ++ "").toList = '@' :: name.toList := by simp
  have hend : name.toList.getLast? ≠ some '@' := fun hlast => hplain (List.mem_of_getLast? hlast)
  unfold parseMarker
  rw [hlist]
  simp only [hend, if_false, String.ofList_toList]
  refine if_neg ?_
  simp [hne, hplain]

theorem parseMarker_ne_empty {path last name : String} {marker : Marker}
    (h : parseMarker path last = .ok (name, marker)) : name ≠ "" := by
  unfold parseMarker at h
  rcases ite_eq_iff.1 h with ⟨-, herror⟩ | ⟨hcond, hok⟩
  · cases herror
  · simp only [Except.ok.injEq, Prod.mk.injEq] at hok
    intro hempty
    rw [← hok.1] at hempty
    have hnil := congrArg String.toList hempty
    rw [String.toList_ofList] at hnil
    refine hcond ?_
    rw [hnil]
    rfl

/-! ## Keys -/

theorem length_extendKey {segment : String} (hsegment : segment ≠ "") (key : String) :
    key.length < (extendKey key segment).length := by
  have hpos : 0 < segment.length := Nat.pos_of_ne_zero fun hzero => hsegment (String.length_eq_zero_iff.1 hzero)
  unfold extendKey
  split
  · next hkey =>
    rw [String.isEmpty_iff.1 hkey]
    exact hpos
  · have hdot : (".").length = 1 := rfl
    rw [String.length_append, String.length_append]
    omega

namespace Scope
variable {s : Scope}

section
variable {size : String → Nat} (hstep : ∀ key segment, segment ≠ "" → size key < size (extendKey key segment))
include hstep

/-- The keys of a walk grow with every step, in any size that grows with each name. -/
theorem walk_growing (path : String) : ∀ {segments : List String} {p q : Position}, (∀ x ∈ segments, x ≠ "") →
    (s.walk path p segments).2 = .ok q →
      ((s.walk path p segments).1.map KeyedJoin.key).Pairwise (fun k l => size k < size l) ∧
      size p.key ≤ size q.key ∧
      ∀ j ∈ (s.walk path p segments).1, size p.key < size j.key ∧ size j.key ≤ size q.key
  | [], p, q, _, h => by
    cases h
    exact ⟨.nil, le_rfl, fun j hj => (List.not_mem_nil hj).elim⟩
  | segment :: rest, p, q, hsegments, h => by
    obtain ⟨j, p', hfirst, hend, hjoins⟩ := walk_cons_ok h
    have hkeys : j.key = p'.key ∧ size p.key < size p'.key := by
      obtain ⟨a, target, e, -, -, rfl, ⟨key, -, rfl⟩ | ⟨column, -, rfl⟩⟩ := step_cases hfirst <;>
        exact ⟨rfl, hstep p.key segment (hsegments segment List.mem_cons_self)⟩
    obtain ⟨hpairwise, hgrown, hlater⟩ :=
      walk_growing path (fun x hx => hsegments x (List.mem_cons_of_mem segment hx)) hend
    rw [hjoins]
    refine ⟨List.pairwise_cons.2 ⟨fun k hk => ?_, hpairwise⟩, by omega, fun k hk => ?_⟩
    · obtain ⟨l, hl, rfl⟩ := List.mem_map.1 hk
      rw [hkeys.1]
      exact (hlater l hl).1
    · rcases List.mem_cons.1 hk with rfl | hk
      · rw [hkeys.1]
        exact ⟨hkeys.2, hgrown⟩
      · have hbounds := hlater k hk
        exact ⟨by omega, hbounds.2⟩

theorem trace_growing (hmark : ∀ key mark, size key ≤ size (key ++ mark)) {path : String} {t : Term}
    (h : (s.trace path).2 = .ok t) :
    ((s.trace path).1.map KeyedJoin.key).Pairwise fun k l => size k < size l := by
  obtain ⟨segments, p, j, hparse, hwalk, hleaf, hjoins⟩ := trace_ok h
  obtain ⟨hpairwise, -, hwalked⟩ := walk_growing hstep path (FieldPath.parse_ok hparse).2 hwalk
  have hlast : ∀ k ∈ j.toList, size p.key < size k.key := by
    obtain ⟨name, marker, a, hmarker, -, ⟨-, rfl, -⟩ | ⟨-, v, key, -, hkey, rfl, -⟩⟩ := leaf_cases hleaf
    · exact fun k hk => (List.not_mem_nil hk).elim
    · intro k hk
      rw [List.mem_singleton.1 hk]
      show size p.key < size key
      rw [hkey]
      exact lt_of_lt_of_le (hstep p.key name (parseMarker_ne_empty hmarker)) (hmark _ _)
  rw [hjoins, List.map_append]
  refine List.pairwise_append.2 ⟨hpairwise, ?_, fun k hk l hl => ?_⟩
  · cases j with
    | none => exact .nil
    | some j => exact List.pairwise_singleton _ _
  · obtain ⟨a, ha, rfl⟩ := List.mem_map.1 hk
    obtain ⟨b, hb, rfl⟩ := List.mem_map.1 hl
    exact lt_of_le_of_lt (hwalked a ha).2 (hlast b hb)

end

theorem trace_keys {path : String} {t : Term} (h : (s.trace path).2 = .ok t) :
    ((s.trace path).1.map KeyedJoin.key).Nodup := by
  have hgrowing := trace_growing (fun key segment hsegment => length_extendKey hsegment key)
    (fun key mark => by rw [String.length_append]; omega) h
  exact hgrowing.imp fun hlt heq => absurd hlt (by rw [heq]; exact lt_irrefl _)

theorem joins_addJoins : ∀ {js : List KeyedJoin} {s : Scope}, ((s.joins ++ js).map KeyedJoin.key).Nodup →
    (s.addJoins js).joins = s.joins ++ js
  | [], s, _ => (List.append_nil s.joins).symm
  | j :: js, s, h => by
    have hnew : j.key ∉ s.joins.map KeyedJoin.key := by
      rw [List.map_append, List.map_cons] at h
      exact fun hmem => (List.nodup_append.1 h).2.2 _ hmem _ List.mem_cons_self rfl
    have hadd : (s.addJoin j).joins = s.joins ++ [j] := by
      rw [addJoin_of_notMem hnew]
    have hrest : (((s.addJoin j).joins ++ js).map KeyedJoin.key).Nodup := by
      rw [hadd, List.append_assoc]
      exact h
    have hjoins := joins_addJoins hrest
    rw [hadd, List.append_assoc] at hjoins
    exact hjoins

/-! ## To-many joins -/

theorem walk_toMany (path name : String) : ∀ {segments : List String} {p q : Position},
    (s.walk path p segments).2 = .ok q → s.catalog.manyAmong p.entity (segments ++ [name]) = true →
      (∃ j ∈ (s.walk path p segments).1, j.join.toMany = true) ∨
        ∀ a, q.entity.lookup name = .ok a → a.isCollection = true
  | [], p, q, h, hmany => by
    cases h
    exact .inr fun a ha => by simpa [Catalog.manyAmong, Entity.lookup?_of_lookup ha] using hmany
  | segment :: rest, p, q, h, hmany => by
    obtain ⟨j, p', hstep, hend, hjoins⟩ := walk_cons_ok h
    rw [hjoins]
    obtain ⟨a, target, e, ha, he, hp', hjoin⟩ := step_cases hstep
    rcases hjoin with ⟨key, hstorage, -⟩ | ⟨column, -, rfl⟩
    · -- a to-one relation is not many itself, so the names behind it are
      have hrest : s.catalog.manyAmong p'.entity (rest ++ [name]) = true := by
        rw [hp']
        simpa [Catalog.manyAmong, Entity.lookup?_of_lookup ha, Attribute.isCollection, hstorage, Catalog.targetOf,
          Catalog.entity?_of_require he] using hmany
      rcases walk_toMany path name hend hrest with ⟨k, hk, hkmany⟩ | hlast
      · exact .inl ⟨k, List.mem_cons_of_mem j hk, hkmany⟩
      · exact .inr hlast
    · exact .inl ⟨_, List.mem_cons_self, rfl⟩

/-- **A path along names with many values makes a to-many join.** -/
theorem trace_toMany {path name : String} {segments : FieldPath} {marker : Marker} {t : Term}
    (hparse : FieldPath.parse path = .ok segments) (hmarker : parseMarker path segments.last = .ok (name, marker))
    (hmany : s.catalog.manyAmong s.root (segments.parents ++ [name]) = true) (h : (s.trace path).2 = .ok t) :
    ∃ j ∈ (s.trace path).1, j.join.toMany = true := by
  obtain ⟨segments', p, j, hparse', hwalk, hleaf, hjoins⟩ := trace_ok h
  rw [hparse] at hparse'
  cases hparse'
  rw [hjoins]
  rcases walk_toMany path name (p := s.start) hwalk hmany with ⟨k, hk, hkmany⟩ | hlast
  · exact ⟨k, List.mem_append_left _ hk, hkmany⟩
  · obtain ⟨name', marker', a, hmarker', ha, hcases⟩ := leaf_cases hleaf
    rw [hmarker] at hmarker'
    cases hmarker'
    have hcollection := hlast a ha
    rcases hcases with ⟨hplain, -⟩ | ⟨-, v, key, -, -, rfl, -⟩
    · rw [hplain] at hcollection
      cases hcollection
    · exact ⟨_, List.mem_append_right _ List.mem_cons_self, rfl⟩

theorem manyAlong_target {catalog : Catalog} {root : Entity} {path : String} (marked : Bool)
    (h : catalog.manyAlong root path = true) :
    ∃ segments name marker,
      FieldPath.parse (if marked && !hasChar '@' path then membershipPath path else path) = .ok segments ∧
      parseMarker (if marked && !hasChar '@' path then membershipPath path else path) segments.last =
        .ok (name, marker) ∧
      catalog.manyAmong root (segments.parents ++ [name]) = true := by
  unfold Catalog.manyAlong at h
  cases hparse : FieldPath.parse path with
  | error e =>
    rw [hparse] at h
    cases h
  | ok segments =>
    simp only [hparse] at h
    cases hmarker : parseMarker path segments.last with
    | error e =>
      rw [hmarker] at h
      cases h
    | ok nm =>
      obtain ⟨name, marker⟩ := nm
      simp only [hmarker] at h
      by_cases hmarks : (marked && !hasChar '@' path) = true
      · have hplain : '@' ∉ segments.last.toList := notMem_last_of_unmarked hparse <| by
          rw [Bool.and_eq_true, Bool.not_eq_true'] at hmarks
          exact hmarks.2
        rw [if_pos hmarks]
        exact ⟨_, name, _, parse_marked (by decide) hparse, parseMarker_membership _ hmarker hplain, h⟩
      · rw [if_neg hmarks]
        exact ⟨segments, name, marker, hparse, hmarker, h⟩

/-- **A filter on a path with many values leaves a fresh scope with a to-many join.** -/
theorem filterTarget_toMany {path : String} {t : Term} (hfields : s.fields = []) (hjoins : s.joins = [])
    (h : (s.filterTarget path).2 = .ok t) (hmany : s.catalog.manyAlong s.root path = true) :
    (s.filterTarget path).1.hasToManyJoins = true := by
  obtain ⟨a, -, hresolved, htrace⟩ := resolveMarked_ok hfields h
  obtain ⟨segments, name, marker, hparse, hmarker, hnames⟩ := manyAlong_target a.isCollection hmany
  obtain ⟨j, hj, hjmany⟩ := trace_toMany hparse hmarker hnames htrace
  have hadded := joins_addJoins (s := s) (by rw [hjoins]; exact trace_keys htrace)
  unfold filterTarget hasToManyJoins
  rw [hresolved]
  refine List.any_eq_true.2 ⟨j, ?_, hjmany⟩
  show j ∈ (s.addJoins _).joins
  rw [hadded]
  exact List.mem_append_right _ hj

end Scope

end PageQuery
