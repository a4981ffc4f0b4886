import PageQuery.Proofs.Remembered
/-!
# The order in which paths are resolved

What a path means does not depend on the joins that are there, and as long as no name has the mark of membership joins
in it, the key of a join determines the join.  So the joins of a scope are the joins of its paths, each once: paths in
another order leave the same joins, and only the order of these differs, in which every join still stands behind the
one it is joined to.
-/
namespace PageQuery

/-! ## Keys determine joins -/

theorem mem_keyOf_iff {names : List String} (hnames : ∀ x ∈ names, '@' ∉ x.toList) (marked : Bool) :
    '@' ∈ (keyOf names marked).toList ↔ marked = true := by
  have hplain := notMem_joinText hnames
  cases marked <;> simp [keyOf, hplain]

theorem keyOf_inj {names names' : List String} {marked marked' : Bool} (hne : names ≠ []) (hne' : names' ≠ [])
    (hnames : ∀ x ∈ names, '.' ∉ x.toList ∧ '@' ∉ x.toList) (hnames' : ∀ x ∈ names', '.' ∉ x.toList ∧ '@' ∉ x.toList)
    (h : keyOf names marked = keyOf names' marked') : names = names' ∧ marked = marked' := by
  have hmarked : marked = marked' := by
    rw [Bool.eq_iff_iff, ← mem_keyOf_iff (fun x hx => (hnames x hx).2) marked, h,
      mem_keyOf_iff fun x hx => (hnames' x hx).2]
  have hjoined : joinText "." names = joinText "." names' := by
    have hlist := congrArg String.toList h
    rw [keyOf, keyOf, hmarked, String.toList_append, String.toList_append] at hlist
    exact String.toList_inj.1 (List.append_cancel_right hlist)
  have hsplit := congrArg (splitText '.') hjoined
  rw [splitText_joinText rfl hne fun x hx => (hnames x hx).1,
    splitText_joinText rfl hne' fun x hx => (hnames' x hx).1] at hsplit
  exact ⟨hsplit, hmarked⟩

namespace Scope
variable {s : Scope}

/-- **Joins with one key are one join**, whatever paths they belong to. -/
theorem trace_key_inj (hplain : ∀ n ∈ s.catalog.joinNames s.root, '@' ∉ n.toList) {path path' : String}
    {j k : KeyedJoin} (hj : j ∈ (s.trace path).1) (hk : k ∈ (s.trace path').1) (hkey : j.key = k.key) : j = k := by
  obtain ⟨names, marked, hnamed⟩ := trace_joinNamed hj
  obtain ⟨names', marked', hnamed'⟩ := trace_joinNamed hk
  have hchars : ∀ {names : List String}, s.JoinNames names → ∀ x ∈ names, '.' ∉ x.toList ∧ '@' ∉ x.toList :=
    fun hnames x hx => ⟨(hnames x hx).2.1, hplain x (hnames x hx).2.2⟩
  rw [hnamed.key, hnamed'.key] at hkey
  obtain ⟨rfl, rfl⟩ := keyOf_inj hnamed.ne_nil hnamed'.ne_nil (hchars hnamed.joinNames) (hchars hnamed'.joinNames) hkey
  exact Option.some.inj (hnamed.join.symm.trans hnamed'.join)

/-- **The joins of paths** are those that each of them asks for. -/
theorem mem_addPaths_iff (hjoins : s.joins = []) (hplain : ∀ n ∈ s.catalog.joinNames s.root, '@' ∉ n.toList)
    {paths : List String} {j : KeyedJoin} : j ∈ (s.addPaths paths).joins ↔ ∃ path ∈ paths, j ∈ (s.trace path).1 := by
  have hsome : ∀ {k : KeyedJoin}, k ∈ (s.addPaths paths).joins → ∃ path ∈ paths, k ∈ (s.trace path).1 := fun hk => by
    rcases mem_addPaths hk with hk | hk
    · rw [hjoins] at hk
      cases hk
    · exact hk
  refine ⟨hsome, fun ⟨path, hpath, hj⟩ => ?_⟩
  obtain ⟨k, hk, hkey⟩ := List.mem_map.1 (key_mem_addPaths hpath hj)
  obtain ⟨path', -, hk'⟩ := hsome hk
  rw [trace_key_inj hplain hj hk' hkey.symm]
  exact hk

theorem ordered_of_joins_eq_nil (hjoins : s.joins = []) : s.Ordered := by
  refine ⟨?_, ?_, ?_⟩
  · rw [hjoins]
    exact fun j hj => (List.not_mem_nil hj).elim
  · rw [hjoins]
    exact .nil
  · rw [joinList, hjoins]
    exact trivial

theorem nodup_joins (hjoins : s.joins = []) (paths : List String) : (s.addPaths paths).joins.Nodup :=
  ((ordered_of_joins_eq_nil hjoins).addPaths paths).keys.of_map

theorem perm_joins (hjoins : s.joins = []) (hplain : ∀ n ∈ s.catalog.joinNames s.root, '@' ∉ n.toList)
    {ps qs : List String} (h : ps.Perm qs) : (s.addPaths ps).joins.Perm (s.addPaths qs).joins := by
  refine (List.perm_ext_iff_of_nodup (nodup_joins hjoins ps) (nodup_joins hjoins qs)).2 fun j => ?_
  rw [mem_addPaths_iff hjoins hplain, mem_addPaths_iff hjoins hplain]
  simp only [h.mem_iff]

end Scope

/-! ## Every join behind the one it is joined to -/

/-- The label of what a key leads to: of the root, whose key is empty, or of the join that has the key. -/
def labelAt (rootLabel key : String) : String := if key.isEmpty then rootLabel else joinLabel rootLabel key

/-- The join is owned by what its key without the last name leads to: the root, or a join with one of the keys. -/
def KeyedJoin.Hangs (rootLabel : String) (keys : List String) (j : KeyedJoin) : Prop :=
  ∃ key last, (key = "" ∨ key ∈ keys) ∧ '.' ∉ last.toList ∧ j.key = extendKey key last ∧
    j.join.owner.source = labelAt rootLabel key

theorem KeyedJoin.Hangs.mono {rootLabel : String} {keys keys' : List String} {j : KeyedJoin} (hsub : keys ⊆ keys')
    (h : j.Hangs rootLabel keys) : j.Hangs rootLabel keys' := by
  obtain ⟨key, last, hkey, hrest⟩ := h
  exact ⟨key, last, hkey.imp_right fun hmem => hsub hmem, hrest⟩

def Chained (rootLabel : String) (seen : List String) : List KeyedJoin → Prop
  | [] => True
  | j :: js => j.Hangs rootLabel seen ∧ Chained rootLabel (j.key :: seen) js

namespace Chained
variable {rootLabel : String}

theorem concat {k : KeyedJoin} : ∀ {js : List KeyedJoin} {seen : List String}, Chained rootLabel seen js →
    k.Hangs rootLabel (seen ++ js.map KeyedJoin.key) → Chained rootLabel seen (js ++ [k])
  | [], seen, _, hk => ⟨by simpa using hk, trivial⟩
  | j :: js, seen, h, hk => by
    refine ⟨h.1, concat h.2 (hk.mono fun key hkey => ?_)⟩
    rw [List.map_cons, List.mem_append, List.mem_cons] at hkey
    rw [List.mem_append, List.mem_cons]
    tauto

theorem hangs_of_split {j : KeyedJoin} {after : List KeyedJoin} : ∀ {before : List KeyedJoin} {seen : List String},
    Chained rootLabel seen (before ++ j :: after) → j.Hangs rootLabel (seen ++ before.map KeyedJoin.key)
  | [], seen, h => by simpa using h.1
  | k :: before, seen, h => by
    refine (hangs_of_split h.2).mono fun key hkey => ?_
    rw [List.mem_append, List.mem_cons] at hkey
    rw [List.map_cons, List.mem_append, List.mem_cons]
    tauto

end Chained

namespace Scope
variable {s : Scope}

theorem walk_chained (path : String) : ∀ {segments : List String} {p : Position} (seen : List String),
    p.label = labelAt s.label p.key → (p.key = "" ∨ p.key ∈ seen) → (∀ x ∈ segments, x ≠ "" ∧ '.' ∉ x.toList) →
    Chained s.label seen (s.walk path p segments).1 ∧ ∀ q, (s.walk path p segments).2 = .ok q →
      q.label = labelAt s.label q.key ∧
        (q.key = "" ∨ q.key ∈ seen ++ (s.walk path p segments).1.map KeyedJoin.key)
  | [], p, seen, hlabel, hkey, _ => by
    refine ⟨trivial, fun q hq => ?_⟩
    cases hq
    exact ⟨hlabel, hkey.imp_right fun hmem => List.mem_append_left _ hmem⟩
  | segment :: rest, p, seen, hlabel, hkey, hsegments => by
    simp only [walk]
    cases hstep : s.step path p segment with
    | error e => exact ⟨trivial, fun q hq => by cases hq⟩
    | ok jq =>
      obtain ⟨j, q⟩ := jq
      obtain ⟨hne, hdot⟩ := hsegments segment List.mem_cons_self
      obtain ⟨hhangs, hjkey, hqlabel, hqkey⟩ : j.Hangs s.label seen ∧ q.key = j.key ∧
          q.label = joinLabel s.label q.key ∧ q.key = extendKey p.key segment := by
        obtain ⟨a, target, e, -, -, rfl, ⟨key, -, rfl⟩ | ⟨column, -, rfl⟩⟩ := step_cases hstep <;>
          exact ⟨⟨p.key, segment, hkey, hdot, rfl, hlabel⟩, rfl, rfl, rfl⟩
      have hlabel' : q.label = labelAt s.label q.key := by
        have hlong := length_extendKey hne p.key
        rw [labelAt, if_neg, hqlabel]
        rw [hqkey, String.isEmpty_iff]
        intro hempty
        rw [hempty] at hlong
        exact Nat.not_lt_zero _ hlong
      obtain ⟨hchained, hend⟩ := walk_chained path (j.key :: seen) hlabel' (.inr (hjkey ▸ List.mem_cons_self))
        fun x hx => hsegments x (List.mem_cons_of_mem segment hx)
      refine ⟨⟨hhangs, hchained⟩, fun q' hq' => (hend q' hq').imp_right fun hmem => hmem.imp_right fun hmem => ?_⟩
      simp only [List.map_cons, List.mem_append, List.mem_cons] at hmem ⊢
      tauto

/-- The joins of a path hang on the root and on each other. -/
theorem trace_chained (s : Scope) (path : String) : Chained s.label [] (s.trace path).1 := by
  unfold trace
  cases hparse : FieldPath.parse path with
  | error e => exact trivial
  | ok segments =>
    obtain ⟨hcut, hparents⟩ := FieldPath.parse_ok hparse
    have hdots : ∀ x ∈ segments.parents ++ [segments.last], '.' ∉ x.toList := fun x hx hdot =>
      (mem_of_mem_splitText (hcut ▸ hx) hdot).2 rfl
    have hstart : s.start.label = labelAt s.label s.start.key := rfl
    obtain ⟨hchained, hend⟩ := walk_chained (s := s) path [] hstart (.inl rfl) fun x hx =>
      ⟨hparents x hx, hdots x (List.mem_append_left _ hx)⟩
    simp only
    generalize s.walk path s.start segments.parents = walked at hchained hend
    obtain ⟨js, e | p⟩ := walked
    · exact hchained
    · simp only
      cases hleaf : s.leaf path p segments.last with
      | error e => exact hchained
      | ok jt =>
        obtain ⟨j, t⟩ := jt
        obtain ⟨name, marker, a, hmarker, -, ⟨-, rfl, -⟩ | ⟨-, v, key, -, hkey, rfl, -⟩⟩ := leaf_cases hleaf
        · show Chained _ _ (js ++ [])
          rw [List.append_nil]
          exact hchained
        · obtain ⟨hlabel, hmem⟩ := hend p rfl
          refine hchained.concat ⟨p.key, name ++ (if marker = .membership then "@" else ""), hmem, ?_, ?_, hlabel⟩
          · have hname : '.' ∉ name.toList := fun hdot =>
              hdots segments.last (List.mem_append_right _ List.mem_cons_self) (mem_of_parseMarker hmarker hdot)
            split <;> simp [hname]
          · show key = _
            rw [hkey]
            unfold extendKey
            split
            · rfl
            · simp only [String.append_assoc]

theorem Chained.addJoins : ∀ {js : List KeyedJoin} {s : Scope} {seen : List String}, Chained s.label [] s.joins →
    Chained s.label seen js → (∀ key ∈ seen, key ∈ s.joins.map KeyedJoin.key) →
    Chained s.label [] (s.addJoins js).joins
  | [], _, _, hs, _, _ => hs
  | j :: js, s, seen, hs, hjs, hseen => by
    show Chained s.label [] ((s.addJoin j).addJoins js).joins
    have hlater : ∀ key ∈ j.key :: seen, key ∈ (s.addJoin j).joins.map KeyedJoin.key := fun key hkey => by
      rcases List.mem_cons.1 hkey with rfl | hkey
      · have hadded : j.key ∈ (s.addJoins [j]).joins.map KeyedJoin.key := key_mem_addJoins List.mem_cons_self
        exact hadded
      · exact ((prefix_addJoins s [j]).map KeyedJoin.key).subset (hseen key hkey)
    by_cases hkey : j.key ∈ s.joins.map KeyedJoin.key
    · rw [addJoin_of_mem hkey] at hlater ⊢
      exact Chained.addJoins hs hjs.2 hlater
    · rw [addJoin_of_notMem hkey] at hlater ⊢
      exact Chained.addJoins (s := { s with joins := s.joins ++ [j] })
        (hs.concat (hjs.1.mono fun key hkey => by simpa using hseen key hkey)) hjs.2 hlater

theorem chained_addPaths : ∀ (paths : List String) {s : Scope}, Chained s.label [] s.joins →
    Chained s.label [] (s.addPaths paths).joins
  | [], _, hs => hs
  | path :: rest, s, hs => by
    have hpath := Chained.addJoins hs (trace_chained s path) fun key hkey => (List.not_mem_nil hkey).elim
    have hrest := chained_addPaths rest (s := s.addJoins (s.trace path).1) (by rwa [label_addJoins])
    rwa [label_addJoins] at hrest

end Scope

/-- The join is owned by the root, or by a join in front of it whose key is its own without the last name. -/
def KeyedJoin.Follows (rootLabel : String) (before : List KeyedJoin) (j : KeyedJoin) : Prop :=
  j.join.owner.source = rootLabel ∧ '.' ∉ j.key.toList ∨
    ∃ k ∈ before, j.join.owner.source = k.join.label ∧ ∃ last, '.' ∉ last.toList ∧ j.key = k.key ++ "." ++ last

namespace Scope
variable {s : Scope}

/-- **Every join stands behind the join it is joined to.** -/
theorem follows_of_split (hjoins : s.joins = []) {paths : List String} {before after : List KeyedJoin} {j : KeyedJoin}
    (hsplit : (s.addPaths paths).joins = before ++ j :: after) : j.Follows s.label before := by
  have hmade := ((ordered_of_joins_eq_nil hjoins).addPaths paths).made
  have hchained : Chained s.label [] (s.addPaths paths).joins := chained_addPaths paths (by rw [hjoins]; exact trivial)
  rw [hsplit] at hmade hchained
  obtain ⟨key, last, hkey, hdot, hextended, howner⟩ := hchained.hangs_of_split
  rw [List.nil_append] at hkey
  unfold labelAt at howner
  unfold extendKey at hextended
  by_cases hempty : key.isEmpty = true
  · rw [if_pos hempty] at howner hextended
    exact .inl ⟨howner, hextended ▸ hdot⟩
  · rw [if_neg hempty] at howner hextended
    have hmem := hkey.resolve_left fun h => hempty (String.isEmpty_iff.2 h)
    obtain ⟨k, hk, rfl⟩ := List.mem_map.1 hmem
    refine .inr ⟨k, hk, ?_, last, hdot, hextended⟩
    rw [howner, (hmade k (List.mem_append_left _ hk)).label, label_addPaths]

/-! ## Answers -/

theorem answers_eq : ∀ (paths : List String) {s : Scope}, s.fields = [] →
    s.answers paths = paths.map fun path => (path, (s.trace path).2)
  | [], _, _ => rfl
  | path :: rest, s, hs => by
    have hgrows := grows_resolve s path
    have hrest := answers_eq rest (s := (s.resolve path).1) (by rw [hgrows.fields, hs])
    rw [answers, hrest, resolve_of_field (field?_of_fields_eq_nil hs path), List.map_cons]
    simp only [(grows_addPath s path).trace]

theorem resolve_again (hfields : s.fields = []) {paths : List String} {path : String} (hpath : path ∈ paths) :
    (s.resolveAll paths).resolve path = (s.resolveAll paths, (s.trace path).2) := by
  have hgrows := grows_resolveAll s paths
  have hhas : (s.resolveAll paths).Has path := fun j hj => by
    rw [hgrows.trace] at hj
    rw [resolveAll_of_fields_eq_nil hfields]
    exact key_mem_addPaths hpath hj
  rw [resolve_of_field (field?_of_fields_eq_nil (by rw [hgrows.fields, hfields]) path), addJoins_of_mem hhas,
    hgrows.trace]

end Scope

/-- **The order in which paths are resolved does not matter.**  Let no name of an attribute that a join may lead to have
an `@` in it.  Two scopes alike that were not used yet, asked for the same paths in different orders, each however often
and also those that mean nothing, give every path the same answer and end with the same joins.  In both, asking again
for any of the paths gives the same answer and changes nothing, and every join stands behind the join that owns it.  All
of this goes for scopes that remember what they answered, which give the same answers and have the same joins. -/
theorem resolution_order_free {s : Scope} (hfields : s.fields = []) (hjoins : s.joins = [])
    (hplain : ∀ n ∈ s.catalog.joinNames s.root, '@' ∉ n.toList) {ps qs : List String} (hperm : ps.Perm qs) :
    (∃ meaning : String → Except Failure Term, ∀ paths ∈ [ps, qs],
      s.answers paths = paths.map fun path => (path, meaning path)) ∧
    (s.resolveAll ps).joins.Perm (s.resolveAll qs).joins ∧
    ∀ paths ∈ [ps, qs],
      (∀ x ∈ s.answers paths, (s.resolveAll paths).resolve x.1 = (s.resolveAll paths, x.2)) ∧
      (∀ before j after, (s.resolveAll paths).joins = before ++ j :: after → j.Follows s.label before) ∧
      (RememberingScope.start s).answers paths = s.answers paths ∧
      ((RememberingScope.start s).resolveAll paths).scope = s.resolveAll paths ∧
      ∀ x ∈ s.answers paths, ((RememberingScope.start s).resolveAll paths).resolve x.1 =
        ((RememberingScope.start s).resolveAll paths, x.2) := by
  refine ⟨⟨fun path => (s.trace path).2, fun paths _ => Scope.answers_eq paths hfields⟩, ?_, fun paths _ => ?_⟩
  · rw [Scope.resolveAll_of_fields_eq_nil hfields, Scope.resolveAll_of_fields_eq_nil hfields]
    exact Scope.perm_joins hjoins hplain hperm
  · have hagain : ∀ x ∈ s.answers paths,
        x.1 ∈ paths ∧ (s.resolveAll paths).resolve x.1 = (s.resolveAll paths, x.2) := fun x hx => by
      rw [Scope.answers_eq paths hfields] at hx
      obtain ⟨path, hpath, rfl⟩ := List.mem_map.1 hx
      exact ⟨hpath, Scope.resolve_again hfields hpath⟩
    obtain ⟨hsound, hscope, hanswers⟩ := (RememberingScope.sound_start s).resolveAll paths
    refine ⟨fun x hx => (hagain x hx).2, fun before j after hsplit => ?_, hanswers, hscope, fun x hx => ?_⟩
    · rw [Scope.resolveAll_of_fields_eq_nil hfields] at hsplit
      exact Scope.follows_of_split hjoins hsplit
    · obtain ⟨hpath, hx'⟩ := hagain x hx
      have hsettled := (RememberingScope.settled_resolveAll paths (.start s)).2 x.1 hpath
      refine Prod.ext hsettled.resolve ?_
      have hanswer := (hsound.resolve x.1).2.2
      rw [hscope] at hanswer
      exact hanswer.trans (congrArg Prod.snd hx')

open Sample in
/-- The items of orders, for reading and for membership, and one path that means nothing, in two orders. -/
theorem items_in_any_order :
    ((Scope.new catalog person "e").resolveAll
        ["orders.items", "orders.nothing", "orders.@items@", "orders.items"]).joins.Perm
      ((Scope.new catalog person "e").resolveAll
        ["orders.@items@", "orders.items", "orders.items", "orders.nothing"]).joins ∧
    ((Scope.new catalog person "e").resolveAll ["orders.items", "orders.nothing", "orders.@items@",
      "orders.items"]).joins.map KeyedJoin.key = ["orders", "orders.items", "orders.items@"] ∧
    ((Scope.new catalog person "e").resolveAll ["orders.@items@", "orders.items", "orders.items",
      "orders.nothing"]).joins.map KeyedJoin.key = ["orders", "orders.items@", "orders.items"] := by
  have hnames : catalog.joinNames person = ["orders", "orders", "items"] := by decide +kernel
  have hplain : ∀ n ∈ catalog.joinNames person, '@' ∉ n.toList := by
    rw [hnames]
    decide
  have hperm : ["orders.items", "orders.nothing", "orders.@items@", "orders.items"].Perm
      ["orders.@items@", "orders.items", "orders.items", "orders.nothing"] := by decide
  obtain ⟨-, hjoins, -⟩ := resolution_order_free (s := Scope.new catalog person "e") rfl rfl hplain hperm
  exact ⟨hjoins, by decide +kernel, by decide +kernel⟩

end PageQuery
