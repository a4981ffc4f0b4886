import PageQuery.Proofs.Crossing
/-!
# Keys are the names walked

The key of a join is the names of the attributes that lead to it, with dots between them, and behind them the marker if
it is a join of membership tests.
-/
namespace PageQuery

def Attribute.isJoined (a : Attribute) : Bool :=
  match a.storage with
  | .column _ => false
  | .toOne _ _ | .toMany _ _ | .collection _ _ _ => true

def Catalog.joinNames (c : Catalog) (root : Entity) : List String :=
  (root :: c.entities).flatMap fun e => (e.attributes.filter Attribute.isJoined).map Attribute.name

theorem Catalog.mem_joinNames {c : Catalog} {root e : Entity} (he : e ∈ root :: c.entities) {name : String}
    {a : Attribute} (ha : e.lookup name = .ok a) (hjoined : a.isJoined = true) : name ∈ c.joinNames root := by
  obtain ⟨hmem, rfl⟩ := Entity.lookup_ok ha
  exact List.mem_flatMap.2 ⟨e, he, List.mem_map_of_mem (List.mem_filter.2 ⟨hmem, hjoined⟩)⟩

/-! ## Joined names -/

theorem joinText_cons (sep s : String) {rest : List String} (h : rest ≠ []) :
    joinText sep (s :: rest) = s ++ sep ++ joinText sep rest := by
  cases rest with
  | nil => exact absurd rfl h
  | cons t rest => rfl

theorem joinText_concat (sep name : String) : ∀ {names : List String}, names ≠ [] →
    joinText sep (names ++ [name]) = joinText sep names ++ sep ++ name
  | [], h => absurd rfl h
  | [s], _ => rfl
  | s :: t :: rest, _ => by
    have hrest := joinText_concat sep name (List.cons_ne_nil t rest)
    rw [List.cons_append, joinText_cons sep s (by simp), hrest, joinText_cons sep s (List.cons_ne_nil t rest)]
    simp only [String.append_assoc]

theorem joinText_ne_empty {sep : String} : ∀ {names : List String}, names ≠ [] → (∀ n ∈ names, n ≠ "") →
    joinText sep names ≠ ""
  | [], h, _ => absurd rfl h
  | [s], _, hnames => hnames s List.mem_cons_self
  | s :: t :: rest, _, hnames => by
    rw [joinText_cons sep s (List.cons_ne_nil t rest)]
    intro hempty
    have hlist := congrArg String.toList hempty
    have hs : s.toList = [] := by
      have happend : s.toList ++ (sep.toList ++ (joinText sep (t :: rest)).toList) = [] := by simpa using hlist
      exact (List.append_eq_nil_iff.1 happend).1
    exact hnames s List.mem_cons_self (String.toList_inj.1 hs)

theorem mem_joinText {c : Char} {sep : String} : ∀ {names : List String}, c ∈ (joinText sep names).toList →
    c ∈ sep.toList ∨ ∃ n ∈ names, c ∈ n.toList
  | [], h => by simp [joinText] at h
  | [s], h => .inr ⟨s, List.mem_cons_self, h⟩
  | s :: t :: rest, h => by
    rw [joinText_cons sep s (List.cons_ne_nil t rest), String.toList_append, String.toList_append] at h
    rcases List.mem_append.1 h with h | h
    · rcases List.mem_append.1 h with h | h
      · exact .inr ⟨s, List.mem_cons_self, h⟩
      · exact .inl h
    · rcases mem_joinText h with hsep | ⟨n, hn, hc⟩
      · exact .inl hsep
      · exact .inr ⟨n, List.mem_cons_of_mem s hn, hc⟩

theorem extendKey_joinText {names : List String} (hnames : ∀ n ∈ names, n ≠ "") (name : String) :
    extendKey (joinText "." names) name = joinText "." (names ++ [name]) := by
  unfold extendKey
  by_cases hnil : names = []
  · rw [hnil]
    rfl
  · rw [if_neg, joinText_concat "." name hnil]
    rw [String.isEmpty_iff]
    exact joinText_ne_empty hnil hnames

/-- The key of the join that names lead to, of its own for membership tests if it is marked. -/
def keyOf (names : List String) (marked : Bool) : String := joinText "." names ++ if marked then "@" else ""

theorem keyOf_unmarked (names : List String) : keyOf names false = joinText "." names := String.append_empty

theorem notMem_joinText {names : List String} (h : ∀ x ∈ names, '@' ∉ x.toList) : '@' ∉ (joinText "." names).toList := by
  intro hmem
  rcases mem_joinText hmem with hdot | ⟨x, hx, hmem⟩
  · exact absurd hdot (by decide)
  · exact h x hx hmem

/-- The join of membership tests beside a join: its own key, hence its own label. -/
def KeyedJoin.marked (rootLabel : String) (j : KeyedJoin) : KeyedJoin :=
  ⟨j.key ++ "@", { j.join with label := joinLabel rootLabel (j.key ++ "@") }⟩

/-! ## Walking -/

theorem mem_of_parseMarker {path segment name : String} {marker : Marker}
    (h : parseMarker path segment = .ok (name, marker)) {c : Char} (hc : c ∈ name.toList) : c ∈ segment.toList := by
  unfold parseMarker at h
  rcases ite_eq_iff.1 h with ⟨-, herror⟩ | ⟨-, hok⟩
  · cases herror
  · simp only [Except.ok.injEq, Prod.mk.injEq] at hok
    rw [← hok.1, String.toList_ofList] at hc
    split at hc
    · next rest hsegment =>
      rw [hsegment]
      split at hc
      · exact List.mem_cons_of_mem _ (List.dropLast_subset _ hc)
      · exact List.mem_cons_of_mem _ hc
    · exact hc

namespace Scope
variable {s : Scope}

theorem walk_named (path : String) : ∀ {segments names : List String} {p : Position},
    p.key = joinText "." names → (∀ n ∈ names, n ≠ "") → (∀ x ∈ segments, x ≠ "") →
    p.entity ∈ s.root :: s.catalog.entities →
    (∀ j ∈ (s.walk path p segments).1, ∃ xs, xs <+: segments ∧ xs ≠ [] ∧ j.key = joinText "." (names ++ xs) ∧
      ∀ x ∈ xs, x ∈ s.catalog.joinNames s.root) ∧
    ∀ q, (s.walk path p segments).2 = .ok q → q.key = joinText "." (names ++ segments) ∧
      q.entity ∈ s.root :: s.catalog.entities ∧ ∀ x ∈ segments, x ∈ s.catalog.joinNames s.root
  | [], names, p, hkey, _, _, hentity => by
    refine ⟨fun j hj => (List.not_mem_nil hj).elim, fun q hq => ?_⟩
    cases hq
    exact ⟨by rw [hkey, List.append_nil], hentity, fun x hx => (List.not_mem_nil hx).elim⟩
  | segment :: rest, names, p, hkey, hnames, hsegments, hentity => by
    simp only [walk]
    cases hstep : s.step path p segment with
    | error e => exact ⟨fun j hj => (List.not_mem_nil hj).elim, fun q hq => by cases hq⟩
    | ok jq =>
      obtain ⟨j, q⟩ := jq
      have hsegment : segment ≠ "" := hsegments segment List.mem_cons_self
      have hextended : extendKey p.key segment = joinText "." (names ++ [segment]) := by
        rw [hkey, extendKey_joinText hnames]
      obtain ⟨a, target, e, ha, he, hq, hj⟩ := step_cases hstep
      have hjkey : j.key = joinText "." (names ++ [segment]) := by
        rcases hj with ⟨key, -, rfl⟩ | ⟨column, -, rfl⟩ <;> exact hextended
      have hjoined : segment ∈ s.catalog.joinNames s.root := by
        refine Catalog.mem_joinNames hentity ha ?_
        unfold Attribute.isJoined
        rcases hj with ⟨key, hstorage, -⟩ | ⟨column, hstorage, -⟩ <;> rw [hstorage]
      have hq' : q.key = joinText "." (names ++ [segment]) := by rw [hq]; exact hextended
      have hqentity : q.entity ∈ s.root :: s.catalog.entities := by
        rw [hq]
        exact List.mem_cons_of_mem s.root (Catalog.mem_of_require he)
      have hnames' : ∀ n ∈ names ++ [segment], n ≠ "" := fun n hn => by
        rcases List.mem_append.1 hn with hn | hn
        · exact hnames n hn
        · exact List.mem_singleton.1 hn ▸ hsegment
      obtain ⟨hrest, hend⟩ := walk_named path hq' hnames' (fun x hx => hsegments x (List.mem_cons_of_mem _ hx)) hqentity
      refine ⟨fun k hk => ?_, fun q' hok => ?_⟩
      · rcases List.mem_cons.1 hk with rfl | hk
        · exact ⟨[segment], List.prefix_append [segment] rest, by simp, hjkey,
            fun x hx => List.mem_singleton.1 hx ▸ hjoined⟩
        · obtain ⟨xs, hprefix, -, hkkey, hxs⟩ := hrest k hk
          refine ⟨segment :: xs, List.cons_prefix_cons.2 ⟨rfl, hprefix⟩, by simp, ?_, fun x hx => ?_⟩
          · rw [hkkey, List.append_assoc]
            rfl
          · rcases List.mem_cons.1 hx with rfl | hx
            · exact hjoined
            · exact hxs x hx
      · obtain ⟨hkey', hentity', hjoined'⟩ := hend q' hok
        refine ⟨by rw [hkey', List.append_assoc]; rfl, hentity', fun x hx => ?_⟩
        rcases List.mem_cons.1 hx with rfl | hx
        · exact hjoined
        · exact hjoined' x hx

/-- The names that lead to a join: some of a path's relations, or all its names. -/
theorem trace_named {path : String} {segments : FieldPath} (hparse : FieldPath.parse path = .ok segments)
    {j : KeyedJoin} (hj : j ∈ (s.trace path).1) :
    (∃ xs, xs <+: segments.parents ∧ xs ≠ [] ∧ j.key = keyOf xs false ∧ ∀ x ∈ xs, x ∈ s.catalog.joinNames s.root) ∨
    ∃ name marker, parseMarker path segments.last = .ok (name, marker) ∧
      j.key = keyOf (segments.parents ++ [name]) (decide (marker = .membership)) ∧
      ∀ x ∈ segments.parents ++ [name], x ∈ s.catalog.joinNames s.root := by
  have hparents := (FieldPath.parse_ok hparse).2
  have hstart : s.start.key = joinText "." [] := rfl
  obtain ⟨hjoins, hend⟩ := walk_named (s := s) path hstart (fun n hn => (List.not_mem_nil hn).elim) hparents
    List.mem_cons_self
  have hearlier : ∀ k ∈ (s.walk path s.start segments.parents).1, ∃ xs, xs <+: segments.parents ∧ xs ≠ [] ∧
      k.key = keyOf xs false ∧ ∀ x ∈ xs, x ∈ s.catalog.joinNames s.root := fun k hk => by
    obtain ⟨xs, hprefix, hne, hkey, hxs⟩ := hjoins k hk
    exact ⟨xs, hprefix, hne, by rw [keyOf_unmarked, hkey, List.nil_append], hxs⟩
  unfold trace at hj
  rw [hparse] at hj
  simp only at hj
  generalize s.walk path s.start segments.parents = walked at hearlier hend hj
  obtain ⟨js, e | p⟩ := walked
  · exact .inl (hearlier j hj)
  · simp only at hj
    cases hleaf : s.leaf path p segments.last with
    | error e =>
      rw [hleaf] at hj
      exact .inl (hearlier j hj)
    | ok kt =>
      obtain ⟨k, t⟩ := kt
      rw [hleaf] at hj
      rcases List.mem_append.1 hj with hj | hj
      · exact .inl (hearlier j hj)
      · obtain ⟨hkey, hentity, hnames⟩ := hend p rfl
        obtain ⟨name, marker, a, hmarker, ha, ⟨-, rfl, -⟩ | ⟨hmany, v, key, -, hkey', rfl, -⟩⟩ := leaf_cases hleaf
        · exact (List.not_mem_nil hj).elim
        · rw [List.mem_singleton.1 hj]
          refine .inr ⟨name, marker, hmarker, ?_, fun x hx => ?_⟩
          · show key = _
            rw [hkey', hkey, List.nil_append, extendKey_joinText hparents, keyOf]
            cases marker <;> rfl
          · rcases List.mem_append.1 hx with hx | hx
            · exact hnames x hx
            · rw [List.mem_singleton.1 hx]
              refine Catalog.mem_joinNames hentity ha ?_
              obtain ⟨called, type, storage⟩ := a
              cases storage <;> first | rfl | cases hmany

/-- Names that may stand in a key: not empty, without dots, and of attributes that a join may lead to. -/
def JoinNames (s : Scope) (names : List String) : Prop :=
  ∀ x ∈ names, x ≠ "" ∧ '.' ∉ x.toList ∧ x ∈ s.catalog.joinNames s.root

/-! ## Joins by their keys -/

def joinOf? (s : Scope) (p : Position) (a : Attribute) : Option KeyedJoin :=
  match a.storage with
  | .column _ => none
  | .toOne target key => (s.catalog.entity? target).map fun e =>
      s.joinAt (extendKey p.key a.name) e.table e.identityColumn ⟨p.label, key⟩ false
  | .toMany _ _ | .collection _ _ _ => (s.catalog.valueTable? a).map fun v =>
      s.joinAt (extendKey p.key a.name) v.table v.owner ⟨p.label, p.entity.identityColumn⟩ true

def joinAlong? (s : Scope) : Position → List String → Option KeyedJoin
  | _, [] => none
  | p, name :: rest =>
    match p.entity.lookup? name with
    | none => none
    | some a =>
      if rest.isEmpty then s.joinOf? p a
      else (s.joinOf? p a).bind fun j =>
        ((Catalog.targetOf a.storage).bind s.catalog.entity?).bind fun e => s.joinAlong? ⟨e, j.join.label, j.key⟩ rest

theorem step_joinOf {path : String} {p q : Position} {segment : String} {j : KeyedJoin}
    (h : s.step path p segment = .ok (j, q)) : ∃ a, p.entity.lookup? segment = some a ∧ s.joinOf? p a = some j ∧
      (Catalog.targetOf a.storage).bind s.catalog.entity? = some q.entity ∧ q = ⟨q.entity, j.join.label, j.key⟩ := by
  obtain ⟨a, target, e, ha, he, rfl, hj⟩ := step_cases h
  have hentity := Catalog.entity?_of_require he
  obtain ⟨-, rfl⟩ := Entity.lookup_ok ha
  rcases hj with ⟨key, hstorage, rfl⟩ | ⟨column, hstorage, rfl⟩ <;>
    exact ⟨a, Entity.lookup?_of_lookup ha, by simp [joinOf?, Catalog.valueTable?, hstorage, hentity],
      by simp [hstorage, Catalog.targetOf, hentity], rfl⟩

theorem joinAlong_cons {path : String} {p q : Position} {segment : String} {j : KeyedJoin}
    (h : s.step path p segment = .ok (j, q)) {rest : List String} (hrest : rest ≠ []) :
    s.joinAlong? p (segment :: rest) = s.joinAlong? q rest := by
  obtain ⟨a, ha, hj, htarget, hq⟩ := step_joinOf h
  rw [joinAlong?, ha, hq]
  simp [hrest, hj, htarget]

theorem joinAlong_collection {p : Position} {name : String} {a : Attribute} {v : ValueTable}
    (ha : p.entity.lookup name = .ok a) (hv : s.catalog.valueTable? a = some v) : s.joinAlong? p [name] =
      some (s.joinAt (extendKey p.key name) v.table v.owner ⟨p.label, p.entity.identityColumn⟩ true) := by
  have hjoin : s.joinAlong? p [name] = s.joinOf? p a := by
    rw [joinAlong?, Entity.lookup?_of_lookup ha]
    rfl
  obtain ⟨-, rfl⟩ := Entity.lookup_ok ha
  rw [hjoin, joinOf?]
  cases hstorage : a.storage with
  | column c | toOne target key => simp [Catalog.valueTable?, hstorage] at hv
  | toMany target column | collection table owner value => simp only [hv, Option.map_some]

theorem walk_joinAlong (path : String) : ∀ (segments : List String) (p : Position),
    (∀ j ∈ (s.walk path p segments).1, ∃ xs, xs <+: segments ∧ s.joinAlong? p xs = some j) ∧
      ∀ q, (s.walk path p segments).2 = .ok q → ∀ name,
        s.joinAlong? p (segments ++ [name]) = s.joinAlong? q [name]
  | [], p => ⟨fun j hj => (List.not_mem_nil hj).elim, fun q hq _ => by cases hq; rfl⟩
  | segment :: rest, p => by
    simp only [walk]
    cases hstep : s.step path p segment with
    | error e => exact ⟨fun j hj => (List.not_mem_nil hj).elim, fun q hq => by cases hq⟩
    | ok jq =>
      obtain ⟨j, p'⟩ := jq
      obtain ⟨hjoins, hend⟩ := walk_joinAlong path rest p'
      refine ⟨fun k hk => ?_, fun q hq name => ?_⟩
      · rcases List.mem_cons.1 hk with rfl | hk
        · obtain ⟨a, ha, hk, -, -⟩ := step_joinOf hstep
          refine ⟨[segment], List.prefix_append [segment] rest, ?_⟩
          rw [joinAlong?, ha]
          exact hk
        · obtain ⟨xs, hpre, hxs⟩ := hjoins k hk
          have hne : xs ≠ [] := by
            rintro rfl
            cases hxs
          exact ⟨segment :: xs, List.cons_prefix_cons.2 ⟨rfl, hpre⟩, (joinAlong_cons hstep hne).trans hxs⟩
      · rw [List.cons_append, joinAlong_cons hstep (by simp), hend q hq name]

/-- The key of the join that names lead to is made of these names. -/
theorem key_joinAlong {j : KeyedJoin} : ∀ {xs names : List String} {p : Position}, p.key = joinText "." names →
    (∀ n ∈ names ++ xs, n ≠ "") → s.joinAlong? p xs = some j → j.key = joinText "." (names ++ xs)
  | [], _, _, _, _, h => by cases h
  | x :: rest, names, p, hkey, hnames, h => by
    have hextended : extendKey p.key x = joinText "." (names ++ [x]) := by
      rw [hkey, extendKey_joinText fun n hn => hnames n (List.mem_append_left _ hn)]
    rw [joinAlong?] at h
    cases ha : p.entity.lookup? x with
    | none =>
      rw [ha] at h
      cases h
    | some a =>
      have hname : a.name = x := by
        have hfound := List.find?_some ha
        exact beq_iff_eq.1 hfound
      have hjoin : ∀ k, s.joinOf? p a = some k → k.key = joinText "." (names ++ [x]) := by
        intro k hk
        rw [← hextended, ← hname]
        unfold joinOf? at hk
        split at hk
        · cases hk
        all_goals
          obtain ⟨e, -, rfl⟩ := Option.map_eq_some_iff.1 hk
          rfl
      rw [ha] at h
      simp only at h
      split at h
      · next hnil =>
        rw [List.isEmpty_iff.1 hnil]
        exact hjoin j h
      · obtain ⟨k, hk, hrest⟩ := Option.bind_eq_some_iff.1 h
        obtain ⟨e, -, hrest⟩ := Option.bind_eq_some_iff.1 hrest
        have happend : names ++ [x] ++ rest = names ++ x :: rest := by rw [List.append_assoc]; rfl
        rw [← happend] at hnames ⊢
        exact key_joinAlong (hjoin k hk) hnames hrest

theorem mem_joinNames_of_joinAlong {j : KeyedJoin} : ∀ {xs : List String} {p : Position},
    p.entity ∈ s.root :: s.catalog.entities → s.joinAlong? p xs = some j → ∀ x ∈ xs, x ∈ s.catalog.joinNames s.root
  | [], _, _, _, x, hx => (List.not_mem_nil hx).elim
  | name :: rest, p, hp, h, x, hx => by
    have hjoined : ∀ {a k}, p.entity.lookup? name = some a → s.joinOf? p a = some k →
        name ∈ s.catalog.joinNames s.root := fun {a k} ha hk => by
      refine Catalog.mem_joinNames hp (a := a) (by rw [Entity.lookup, ha]) ?_
      unfold joinOf? at hk
      unfold Attribute.isJoined
      split at hk <;> first | cases hk | simp [*]
    rw [joinAlong?] at h
    cases ha : p.entity.lookup? name with
    | none =>
      rw [ha] at h
      cases h
    | some a =>
      rw [ha] at h
      simp only at h
      split at h
      · next hnil =>
        rw [List.isEmpty_iff.1 hnil] at hx
        exact List.mem_singleton.1 hx ▸ hjoined ha h
      · obtain ⟨k, hk, hrest⟩ := Option.bind_eq_some_iff.1 h
        obtain ⟨e, he, hrest⟩ := Option.bind_eq_some_iff.1 hrest
        obtain ⟨target, -, hfound⟩ := Option.bind_eq_some_iff.1 he
        have hmem : e ∈ s.catalog.entities := (Catalog.entity?_eq_some_iff.1 hfound).1
        rcases List.mem_cons.1 hx with rfl | hx
        · exact hjoined ha hk
        · exact mem_joinNames_of_joinAlong (List.mem_cons_of_mem s.root hmem) hrest x hx

def joinNamed? (s : Scope) (names : List String) (marked : Bool) : Option KeyedJoin :=
  (s.joinAlong? s.start names).map fun k => if marked then k.marked s.label else k

structure Named (s : Scope) (names : List String) (marked : Bool) (j : KeyedJoin) : Prop where
  joinNames : s.JoinNames names
  key : j.key = keyOf names marked
  join : s.joinNamed? names marked = some j

theorem Named.ne_nil {names : List String} {marked : Bool} {j : KeyedJoin} (h : s.Named names marked j) : names ≠ [] := by
  rintro rfl
  have hjoin := h.join
  cases hjoin

theorem named_of_joinAlong {names : List String} {k : KeyedJoin} (hnames : ∀ x ∈ names, x ≠ "" ∧ '.' ∉ x.toList)
    (hk : s.joinAlong? s.start names = some k) (marked : Bool) :
    s.Named names marked (if marked then k.marked s.label else k) := by
  have hstart : s.start.key = joinText "." [] := rfl
  have hjoined := mem_joinNames_of_joinAlong (p := s.start) List.mem_cons_self hk
  have hkey : k.key = joinText "." names := key_joinAlong hstart (by simpa using fun x hx => (hnames x hx).1) hk
  refine ⟨fun x hx => ⟨(hnames x hx).1, (hnames x hx).2, hjoined x hx⟩, ?_, ?_⟩
  · rw [keyOf, ← hkey]
    cases marked with
    | false => exact String.append_empty.symm
    | true => rfl
  · rw [joinNamed?, hk]
    rfl

/-- **Every join of a path is the one that its names lead to from the root**, or the join of membership tests beside
that. -/
theorem trace_joinNamed {path : String} {j : KeyedJoin} (hj : j ∈ (s.trace path).1) :
    ∃ names marked, s.Named names marked j := by
  cases hparse : FieldPath.parse path with
  | error e =>
    unfold trace at hj
    rw [hparse] at hj
    exact (List.not_mem_nil hj).elim
  | ok segments =>
    obtain ⟨hcut, hparents⟩ := FieldPath.parse_ok hparse
    have hdots : ∀ x ∈ segments.parents ++ [segments.last], '.' ∉ x.toList := fun x hx hdot =>
      (mem_of_mem_splitText (hcut ▸ hx) hdot).2 rfl
    have hnames : ∀ x ∈ segments.parents, x ≠ "" ∧ '.' ∉ x.toList := fun x hx =>
      ⟨hparents x hx, hdots x (List.mem_append_left _ hx)⟩
    obtain ⟨hjoins, hend⟩ := walk_joinAlong (s := s) path segments.parents s.start
    have hearlier : j ∈ (s.walk path s.start segments.parents).1 →
        ∃ names marked, s.Named names marked j := fun hj => by
      obtain ⟨xs, hpre, hxs⟩ := hjoins j hj
      exact ⟨xs, false, named_of_joinAlong (fun x hx => hnames x (hpre.subset hx)) hxs false⟩
    unfold trace at hj
    rw [hparse] at hj
    simp only at hj
    generalize s.walk path s.start segments.parents = walked at hearlier hend hj
    obtain ⟨js, e | p⟩ := walked
    · exact hearlier hj
    · simp only at hj
      cases hleaf : s.leaf path p segments.last with
      | error e =>
        rw [hleaf] at hj
        exact hearlier hj
      | ok kt =>
        obtain ⟨k, t⟩ := kt
        rw [hleaf] at hj
        rcases List.mem_append.1 hj with hj | hj
        · exact hearlier hj
        · -- the last name's own join
          obtain ⟨name, marker, a, hmarker, ha, ⟨-, rfl, -⟩ | ⟨-, v, key, hv, hkey, rfl, -⟩⟩ := leaf_cases hleaf
          · exact (List.not_mem_nil hj).elim
          · have hleads : s.joinAlong? s.start (segments.parents ++ [name]) =
                some (s.joinAt (extendKey p.key name) v.table v.owner ⟨p.label, p.entity.identityColumn⟩ true) :=
              (hend p rfl name).trans (joinAlong_collection ha hv)
            have hall : ∀ x ∈ segments.parents ++ [name], x ≠ "" ∧ '.' ∉ x.toList := fun x hx => by
              rcases List.mem_append.1 hx with hx | hx
              · exact hnames x hx
              · rw [List.mem_singleton.1 hx]
                exact ⟨parseMarker_ne_empty hmarker, fun hdot =>
                  hdots segments.last (List.mem_append_right _ List.mem_cons_self) (mem_of_parseMarker hmarker hdot)⟩
            refine ⟨segments.parents ++ [name], decide (marker = .membership), ?_⟩
            rw [List.mem_singleton.1 hj, hkey]
            cases marker with
            | plain | shared =>
              simp only [reduceCtorEq, if_false, String.append_empty]
              exact named_of_joinAlong hall hleads false
            | membership => exact named_of_joinAlong hall hleads true

/-- **Every key of a path's joins is made of names.** -/
theorem trace_keyOf {path : String} {j : KeyedJoin} (hj : j ∈ (s.trace path).1) :
    ∃ names marked, names ≠ [] ∧ s.JoinNames names ∧ j.key = keyOf names marked := by
  obtain ⟨names, marked, hnamed⟩ := trace_joinNamed hj
  exact ⟨names, marked, hnamed.ne_nil, hnamed.joinNames, hnamed.key⟩

/-- **A key without the marker names its join**: the one that its names lead to from the root. -/
theorem trace_joinAlong {path : String} {j : KeyedJoin} (hj : j ∈ (s.trace path).1) (hunmarked : '@' ∉ j.key.toList) :
    s.joinAlong? s.start (splitText '.' j.key) = some j := by
  obtain ⟨names, marked, hnamed⟩ := trace_joinNamed hj
  have hkey := hnamed.key
  cases marked with
  | true =>
    rw [hkey, keyOf] at hunmarked
    simp at hunmarked
  | false =>
    have hjoin := hnamed.join
    rw [hkey, keyOf_unmarked, splitText_joinText rfl hnamed.ne_nil fun x hx => (hnamed.joinNames x hx).2.1]
    simpa [joinNamed?] using hjoin

theorem trace_unmarked {path name : String} {segments : FieldPath} {marker : Marker}
    (hparse : FieldPath.parse path = .ok segments) (hmarker : parseMarker path segments.last = .ok (name, marker))
    (hplain : marker ≠ .membership) (hnames : ∀ x ∈ segments.parents ++ [name], '@' ∉ x.toList) :
    ∀ j ∈ (s.trace path).1, '@' ∉ j.key.toList := by
  have hkeys : ∀ xs : List String, (∀ x ∈ xs, '@' ∉ x.toList) → '@' ∉ (keyOf xs false).toList := fun xs hxs => by
    rw [keyOf_unmarked]
    exact notMem_joinText hxs
  intro j hj
  rcases trace_named hparse hj with ⟨xs, hpre, -, hkey, -⟩ | ⟨name', marker', hmarker', hkey, -⟩
  · rw [hkey]
    exact hkeys xs fun x hx => hnames x (List.mem_append_left _ (hpre.subset hx))
  · rw [hmarker] at hmarker'
    cases hmarker'
    rw [hkey, decide_eq_false hplain]
    exact hkeys _ hnames

end Scope
end PageQuery
