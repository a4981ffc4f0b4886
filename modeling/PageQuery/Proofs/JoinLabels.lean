import PageQuery.Proofs.Keys
import PageQuery.Proofs.Scoping
/-!
# Labels of joins

A join's label is the root's with the join's key behind it, written with `_` for each dot and `_in` for the marker.  The
joins of a scope have different keys.  So no two tables share a label just if no two keys are written alike; `a.b` and
`a_b` are, and so are `a@` and `a.in`.  Names without such characters keep all keys apart.
-/
namespace PageQuery

/-- A key as it stands in a label. -/
def keyText (key : String) : String := replaceChar '@' "_in" (replaceChar '.' "_" key)

theorem joinLabel_inj {rootLabel key key' : String} :
    joinLabel rootLabel key = joinLabel rootLabel key' ↔ keyText key = keyText key' := by
  have htext : ∀ k, (joinLabel rootLabel k).toList = (rootLabel ++ "_").toList ++ (keyText k).toList := fun _ =>
    String.toList_append
  rw [← String.toList_inj, htext, htext, List.append_cancel_left_eq, String.toList_inj]

/-- No two keys that paths from a root have are written alike. -/
def Catalog.KeysApart (c : Catalog) (root : Entity) : Prop :=
  ∀ label path path', ∀ j ∈ ((Scope.new c root label).trace path).1, ∀ k ∈ ((Scope.new c root label).trace path').1,
    keyText j.key = keyText k.key → j.key = k.key

/-! ## Scopes -/

namespace Scope
variable {s : Scope}

def resolveAll (s : Scope) (paths : List String) : Scope := paths.foldl (fun s path => (s.resolve path).1) s

theorem resolveAll_of_fields_eq_nil : ∀ {paths : List String} {s : Scope}, s.fields = [] →
    s.resolveAll paths = s.addPaths paths
  | [], _, _ => rfl
  | path :: rest, s, hs => by
    have hresolve : (s.resolve path).1 = s.addJoins (s.trace path).1 := by
      unfold resolve
      rw [field?_of_fields_eq_nil hs]
    have hrest : (s.addJoins (s.trace path).1).resolveAll rest = (s.addJoins (s.trace path).1).addPaths rest :=
      resolveAll_of_fields_eq_nil (by rw [fields_addJoins, hs])
    rw [resolveAll, List.foldl_cons, hresolve]
    exact hrest

theorem mem_addPaths {j : KeyedJoin} : ∀ {paths : List String} {s : Scope}, j ∈ (s.addPaths paths).joins →
    j ∈ s.joins ∨ ∃ path ∈ paths, j ∈ (s.trace path).1
  | [], _, h => .inl h
  | path :: rest, s, h => by
    have hlater : j ∈ ((s.addJoins (s.trace path).1).addPaths rest).joins := h
    rcases mem_addPaths hlater with h | ⟨path', hpath', h⟩
    · rcases mem_addJoins h with h | h
      · exact .inl h
      · exact .inr ⟨path, List.mem_cons_self, h⟩
    · rw [(grows_addPath s path).trace] at h
      exact .inr ⟨path', List.mem_cons_of_mem path hpath', h⟩

theorem key_mem_addPaths {j : KeyedJoin} {path : String} : ∀ {paths : List String} {s : Scope}, path ∈ paths →
    j ∈ (s.trace path).1 → j.key ∈ (s.addPaths paths).joins.map KeyedJoin.key
  | first :: rest, s, hpath, hj => by
    rcases List.mem_cons.1 hpath with rfl | hpath
    · exact ((prefix_addPaths _ rest).map KeyedJoin.key).subset (key_mem_addJoins hj)
    · rw [← (grows_addPath s first).trace] at hj
      show j.key ∈ ((s.addJoins (s.trace first).1).addPaths rest).joins.map KeyedJoin.key
      exact key_mem_addPaths hpath hj

/-- **A scope that has the key of a path's join has that join**, if the key is unmarked. -/
theorem Laid.mem_joins_of_key (hs : s.Laid) {path : String} {j : KeyedJoin} (hj : j ∈ (s.trace path).1)
    (hunmarked : '@' ∉ j.key.toList) (hkey : j.key ∈ s.joins.map KeyedJoin.key) : j ∈ s.joins := by
  obtain ⟨k, hk, hsame⟩ := List.mem_map.1 hkey
  have hfound : s.base.joinAlong? s.base.start (splitText '.' j.key) = some j := by
    rw [← trace_base] at hj
    exact trace_joinAlong hj hunmarked
  obtain ⟨paths, hjoins⟩ := hs
  have hmade := hk
  rw [hjoins] at hmade
  rcases mem_addPaths hmade with hnone | ⟨path', -, hmade⟩
  · exact (List.not_mem_nil hnone).elim
  · have hother := trace_joinAlong hmade (hsame ▸ hunmarked)
    rw [hsame, hfound] at hother
    cases hother
    exact hk

/-- **The labels of a scope differ just if its keys are written differently.** -/
theorem Laid.nodup_iff (hs : s.Laid) : (s.label :: s.joinList.map Join.label).Nodup ↔
    ∀ j ∈ s.joins, ∀ k ∈ s.joins, keyText j.key = keyText k.key → j.key = k.key := by
  have hmade := hs.ordered.made
  have hlabels : s.joinList.map Join.label = (s.joins.map KeyedJoin.key).map (joinLabel s.label) := by
    unfold joinList
    rw [List.map_map, List.map_map]
    exact List.map_congr_left fun j hj => (hmade j hj).label
  have hroot : s.label ∉ s.joinList.map Join.label := by
    intro hmem
    rw [hlabels] at hmem
    obtain ⟨key, -, hkey⟩ := List.mem_map.1 hmem
    have hlength := congrArg String.length hkey
    rw [joinLabel, String.length_append, String.length_append] at hlength
    have hone : ("_" : String).length = 1 := rfl
    omega
  rw [List.nodup_cons, hlabels, List.nodup_map_iff_inj_on hs.ordered.keys, ← hlabels]
  refine ⟨fun h j hj k hk htext => ?_, fun h => ⟨hroot, fun x hx y hy hxy => ?_⟩⟩
  · exact h.2 _ (List.mem_map_of_mem hj) _ (List.mem_map_of_mem hk) (joinLabel_inj.2 htext)
  · obtain ⟨j, hj, rfl⟩ := List.mem_map.1 hx
    obtain ⟨k, hk, rfl⟩ := List.mem_map.1 hy
    exact h j hj k hk (joinLabel_inj.1 hxy)

theorem nodup_of_subset (hnodup : (s.label :: s.joinList.map Join.label).Nodup) {js : List KeyedJoin}
    (hkeys : (js.map KeyedJoin.key).Nodup) (hmem : ∀ j ∈ js, j ∈ s.joins) :
    (s.label :: js.map fun j => j.join.label).Nodup := by
  rw [joinList, List.map_map] at hnodup
  obtain ⟨hroot, hlabels⟩ := List.nodup_cons.1 hnodup
  refine List.nodup_cons.2 ⟨fun h => hroot ?_, ?_⟩
  · obtain ⟨j, hj, hjl⟩ := List.mem_map.1 h
    exact List.mem_map.2 ⟨j, hmem j hj, hjl⟩
  · exact (List.nodup_map_iff_inj_on (List.Nodup.of_map _ hkeys)).2 fun j hj k hk hjk =>
      List.inj_on_of_nodup_map hlabels (hmem j hj) (hmem k hk) hjk

end Scope

/-- Queries over what paths from a root ask for share no labels, if the keys are apart. -/
theorem Body.Joins.nodup {catalog : Catalog} {root : Entity} (hapart : catalog.KeysApart root) {b : Body}
    (hb : b.Joins catalog root) : b.labels.Nodup := by
  obtain ⟨paths, hjoins⟩ := hb
  have hlaid : ((Scope.new catalog root b.label).addPaths paths).Laid := ⟨paths, by rw [Scope.base_addPaths]; rfl⟩
  have hlabels : b.labels = ((Scope.new catalog root b.label).addPaths paths).label ::
      ((Scope.new catalog root b.label).addPaths paths).joinList.map Join.label := by
    rw [Scope.label_addPaths, ← hjoins]
    rfl
  rw [hlabels, hlaid.nodup_iff]
  intro j hj k hk htext
  rcases Scope.mem_addPaths hj with hj | ⟨path, -, hj⟩
  · exact (List.not_mem_nil hj).elim
  · rcases Scope.mem_addPaths hk with hk | ⟨path', -, hk⟩
    · exact (List.not_mem_nil hk).elim
    · exact hapart b.label path path' j hj k hk htext

/-! ## Names that keep keys apart -/

theorem replaceChar_append (c : Char) (new s t : String) :
    replaceChar c new (s ++ t) = replaceChar c new s ++ replaceChar c new t := by
  unfold replaceChar
  rw [← String.toList_inj]
  simp

/-- With every name a key grows, also as it stands in a label. -/
theorem length_keyText_extendKey (key : String) {segment : String} (hsegment : segment ≠ "") :
    (keyText key).length < (keyText (extendKey key segment)).length := by
  have hkept : ∀ (c : Char) (new : String) {s : String}, new.toList ≠ [] → s ≠ "" → replaceChar c new s ≠ "" := by
    intro c new s hnew hs hempty
    have hlist := congrArg String.toList hempty
    obtain ⟨x, xs, hxs⟩ := List.exists_cons_of_ne_nil fun hnil => hs (String.toList_eq_nil_iff.1 hnil)
    unfold replaceChar at hlist
    rw [String.toList_ofList, hxs, List.flatMap_cons, String.toList_empty] at hlist
    have hfirst := (List.append_eq_nil_iff.1 hlist).1
    split at hfirst
    · exact hnew hfirst
    · cases hfirst
  have hpos : 0 < (keyText segment).length := Nat.pos_of_ne_zero fun hzero =>
    hkept '@' "_in" (by decide) (hkept '.' "_" (by decide) hsegment) (String.length_eq_zero_iff.1 hzero)
  unfold extendKey
  split
  · next hkey =>
    rw [String.isEmpty_iff.1 hkey]
    exact hpos
  · unfold keyText at hpos ⊢
    simp only [replaceChar_append, String.length_append]
    omega

theorem Scope.nodup_of_trace {catalog : Catalog} {root : Entity} {label path : String} {t : Term}
    (h : ((Scope.new catalog root label).trace path).2 = .ok t) :
    (label :: ((Scope.new catalog root label).addJoins
      ((Scope.new catalog root label).trace path).1).joinList.map Join.label).Nodup := by
  have hlaid : ((Scope.new catalog root label).addJoins ((Scope.new catalog root label).trace path).1).Laid :=
    ⟨[path], by rw [Scope.base_addJoins]; rfl⟩
  have hgrowing : (((Scope.new catalog root label).trace path).1.map KeyedJoin.key).Pairwise
      fun k l => (keyText k).length < (keyText l).length :=
    Scope.trace_growing (fun key segment hsegment => length_keyText_extendKey key hsegment) (fun key mark => by
      unfold keyText
      rw [replaceChar_append, replaceChar_append, String.length_append]
      omega) h
  have hapart : ((((Scope.new catalog root label).trace path).1.map KeyedJoin.key).map keyText).Nodup :=
    List.pairwise_map.2 (hgrowing.imp fun hlt heq => absurd hlt (by rw [heq]; exact lt_irrefl _))
  have hjoins := Scope.joins_addJoins (s := Scope.new catalog root label) (Scope.trace_keys h)
  have hnodup := hlaid.nodup_iff.2 fun j hj k hk => by
    rw [hjoins] at hj hk
    exact List.inj_on_of_nodup_map hapart (List.mem_map_of_mem hj) (List.mem_map_of_mem hk)
  rwa [Scope.label_addJoins] at hnodup

theorem replaceChar_of_notMem {c : Char} (new : String) {s : String} (h : c ∉ s.toList) : replaceChar c new s = s := by
  have hsame : ∀ d ∈ s.toList, (if d = c then new.toList else [d]) = [d] := fun d hd => by
    refine if_neg ?_
    rintro rfl
    exact h hd
  unfold replaceChar
  rw [List.flatMap_congr hsame, List.flatMap_singleton', String.ofList_toList]

theorem replaceChar_joinText {c : Char} (new sep : String) : ∀ {names : List String}, (∀ n ∈ names, c ∉ n.toList) →
    replaceChar c new (joinText sep names) = joinText (replaceChar c new sep) names
  | [], _ => by
    rw [joinText, joinText]
    exact replaceChar_of_notMem new (by simp)
  | [s], h => replaceChar_of_notMem new (h s List.mem_cons_self)
  | s :: t :: rest, h => by
    have hrest := replaceChar_joinText new sep fun n hn => h n (List.mem_cons_of_mem s hn)
    rw [joinText_cons sep s (List.cons_ne_nil t rest), replaceChar_append, replaceChar_append, hrest,
      replaceChar_of_notMem new (h s List.mem_cons_self), ← joinText_cons _ s (List.cons_ne_nil t rest)]

/-- A name that no key confuses with others. -/
def plainName (name : String) : Prop := '_' ∉ name.toList ∧ '@' ∉ name.toList ∧ name ≠ "in"

theorem keyText_keyOf {names : List String} (hne : names ≠ []) (hdots : ∀ n ∈ names, '.' ∉ n.toList)
    (hplain : ∀ n ∈ names, plainName n) (marked : Bool) :
    keyText (keyOf names marked) = joinText "_" (names ++ if marked then ["in"] else []) := by
  have hat : ∀ n ∈ names, '@' ∉ n.toList := fun n hn => (hplain n hn).2.1
  have hdot : replaceChar '.' "_" "." = "_" := by decide
  have hunderscore : replaceChar '@' "_in" "_" = "_" := by decide
  unfold keyText keyOf
  rw [replaceChar_append, replaceChar_append, replaceChar_joinText "_" "." hdots, hdot,
    replaceChar_joinText "_in" "_" hat, hunderscore]
  cases marked with
  | false =>
    have hempty : replaceChar '@' "_in" (replaceChar '.' "_" "") = "" := by decide
    simp only [Bool.false_eq_true, if_false, List.append_nil, hempty, String.append_empty]
  | true =>
    have hmark : replaceChar '@' "_in" (replaceChar '.' "_" "@") = "_in" := by decide
    simp only [if_true, hmark, joinText_concat "_" "in" hne, String.append_assoc]
    rfl

/-- **Plain names keep keys apart.** -/
theorem Catalog.keysApart_of_plain {c : Catalog} {root : Entity} (h : ∀ n ∈ c.joinNames root, plainName n) :
    c.KeysApart root := by
  have hcut : ∀ {names : List String} {marked : Bool}, names ≠ [] → (∀ n ∈ names, '.' ∉ n.toList) →
      (∀ n ∈ names, plainName n) →
      splitText '_' (keyText (keyOf names marked)) = names ++ if marked then ["in"] else [] := by
    intro names marked hne hdots hplain
    rw [keyText_keyOf hne hdots hplain]
    refine splitText_joinText rfl (by simp [hne]) fun n hn => ?_
    rcases List.mem_append.1 hn with hn | hn
    · exact (hplain n hn).1
    · cases marked with
      | false => exact (List.not_mem_nil hn).elim
      | true =>
        rw [List.mem_singleton.1 hn]
        decide
  intro label path path' j hj k hk htext
  obtain ⟨names, marked, hne, hnames, hkey⟩ := Scope.trace_keyOf hj
  obtain ⟨names', marked', hne', hnames', hkey'⟩ := Scope.trace_keyOf hk
  have hsplit := congrArg (splitText '_') htext
  rw [hkey, hkey', hcut hne (fun n hn => (hnames n hn).2.1) (fun n hn => h n (hnames n hn).2.2),
    hcut hne' (fun n hn => (hnames' n hn).2.1) (fun n hn => h n (hnames' n hn).2.2)] at hsplit
  -- a name is never `in`, so the pieces tell whether there is a marker
  have hin : ∀ {xs ys : List String}, (∀ n ∈ ys, n ∈ c.joinNames root) → xs ++ ["in"] ≠ ys ++ [] := by
    intro xs ys hys heq
    have hmem : "in" ∈ ys := by
      rw [← List.append_nil ys, ← heq]
      simp
    exact (h "in" (hys "in" hmem)).2.2 rfl
  rw [hkey, hkey']
  cases marked <;> cases marked'
  · rw [show names = names' by simpa using hsplit]
  · exact absurd hsplit.symm (hin fun n hn => (hnames n hn).2.2)
  · exact absurd hsplit (hin fun n hn => (hnames' n hn).2.2)
  · rw [show names = names' by simpa using hsplit]

/-! ## Statements -/

/-- The second query stands in the first: it is the same, or it stands in a subquery of it. -/
inductive Body.Inside : Body → Body → Prop
  | self (b : Body) : Inside b b
  | subquery {b c : Body} {e : Expr} {q : Subquery} (he : e ∈ b.clauses) (hq : q ∈ e.subqueries)
      (h : Inside q.body c) : Inside b c

def PagePlan.statements (plan : PagePlan) : List Statement :=
  plan.data.statement :: plan.count.toList.map Plan.statement

theorem Scope.about_inside {s : Scope} {q : Subquery} (hq : s.about q) {c : Body} (h : q.body.Inside c) :
    c.Joins s.catalog s.root := by
  cases h with
  | self => exact hq.2
  | subquery he hp _ => exact (hq.1.subqueries _ he _ hp).elim

theorem build_joins {catalog : Catalog} {root : Entity} {caps : Capabilities} {r : Request} {wantCount : Bool}
    {recipe : Option Recipe} {requireProjection : Bool} {plan : PagePlan}
    (h : (PagePlan.build catalog root caps r wantCount recipe requireProjection).2 = .ok plan) :
    ∀ st ∈ plan.statements, ∀ b, st.body.Inside b → b.Joins catalog root := by
  intro st hst b hb
  rcases List.mem_cons.1 hst with rfl | hst
  · obtain ⟨-, hclosed, hjoins⟩ := closed_data h
    cases hb with
    | self => exact hjoins
    | subquery he hq hin => exact Scope.about_inside (hclosed.subqueries _ he _ hq) hin
  · obtain ⟨count, hcount, rfl⟩ := List.mem_map.1 hst
    obtain ⟨hjoins, hclosed⟩ := closed_count h (Option.mem_toList.1 hcount)
    cases hb with
    | self => exact ⟨[], hjoins⟩
    | subquery he hq hin =>
      have hcounted := hclosed.subqueries _ he _ hq
      cases hin with
      | self => exact hcounted.2
      | subquery he' hq' hin' => exact Scope.about_inside (hcounted.1.subqueries _ he' _ hq') hin'

/-- **No two tables share a label, as long as no two keys are written alike**: neither in a scope, whatever paths it
resolves, nor in a statement of a page and the subqueries in it.  Plain names are enough for that. -/
theorem labels_apart (catalog : Catalog) (root : Entity) :
    (catalog.KeysApart root ↔ ∀ label paths,
      (label :: ((Scope.new catalog root label).resolveAll paths).joinList.map Join.label).Nodup) ∧
    (catalog.KeysApart root → ∀ caps r wantCount recipe requireProjection plan,
      (PagePlan.build catalog root caps r wantCount recipe requireProjection).2 = .ok plan →
        ∀ st ∈ plan.statements, ∀ b, st.body.Inside b → b.labels.Nodup) ∧
    ((∀ n ∈ catalog.joinNames root, plainName n) → catalog.KeysApart root) := by
  have hresolved : ∀ label paths, (Scope.new catalog root label).resolveAll paths =
      (Scope.new catalog root label).addPaths paths := fun label paths => Scope.resolveAll_of_fields_eq_nil rfl
  refine ⟨⟨fun hapart label paths => ?_, fun hnodup label path path' j hj k hk htext => ?_⟩, ?_,
    Catalog.keysApart_of_plain⟩
  · rw [hresolved]
    have hjoins : (⟨label, ((Scope.new catalog root label).addPaths paths).joinList, []⟩ : Body).Joins catalog root :=
      ⟨paths, rfl⟩
    exact hjoins.nodup hapart
  · -- both paths in one scope
    have hboth := hnodup label [path, path']
    rw [hresolved] at hboth
    have hlaid : ((Scope.new catalog root label).addPaths [path, path']).Laid :=
      ⟨[path, path'], by rw [Scope.base_addPaths]; rfl⟩
    have hkeys := hlaid.nodup_iff.1 (by rwa [Scope.label_addPaths])
    have hfirst : path ∈ [path, path'] := List.mem_cons_self
    have hsecond : path' ∈ [path, path'] := List.mem_cons_of_mem path List.mem_cons_self
    obtain ⟨j', hj', hkey⟩ := List.mem_map.1 (Scope.key_mem_addPaths hfirst hj)
    obtain ⟨k', hk', hkey'⟩ := List.mem_map.1 (Scope.key_mem_addPaths hsecond hk)
    rw [← hkey, ← hkey'] at htext ⊢
    exact hkeys j' hj' k' hk' htext
  · exact fun hapart caps r wantCount recipe requireProjection plan h st hst b hb =>
      (build_joins h st hst b hb).nodup hapart

open Sample in
/-- The names of persons, orders and items are plain, so the shoppers are selected without a shared label. -/
theorem shoppers_labels_apart :
    ∃ plan, (PagePlan.build catalog person Backend.postgres.capabilities (shoppersBy "name") true none false).2 =
      .ok plan ∧ ∀ st ∈ plan.statements, ∀ b, st.body.Inside b → b.labels.Nodup := by
  obtain ⟨plan, hplan, -⟩ := exists_ok (P := fun _ => True)
    (x := (PagePlan.build catalog person Backend.postgres.capabilities (shoppersBy "name") true none false).2)
    (by decide +kernel)
  have hnames : catalog.joinNames person = ["orders", "orders", "items"] := by decide +kernel
  have hplain : ∀ n ∈ catalog.joinNames person, plainName n := by
    rw [hnames]
    unfold plainName
    decide
  obtain ⟨-, hbuilds, hapart⟩ := labels_apart catalog person
  exact ⟨plan, hplan, hbuilds (hapart hplain) _ _ _ _ _ plan hplan⟩

/-! ## Two tables under one label -/

namespace Sample

def shippedOrder : Entity :=
  .ofDeclarations "order" "orders" [.toOne "ship" "shipment" "ship_id", .toOne "ship_to" "address" "ship_to_id"]

def shippedCatalog : Catalog :=
  .ofList [shippedOrder, .ofDeclarations "shipment" "shipments" [.toOne "to" "address" "to_id"],
    .ofDeclarations "address" "addresses" [.scalar "city" .text]]

end Sample

open Sample in
/-- The address of an order and that of its shipment stand under one label. -/
theorem shipped_labels_shared :
    ¬("e" :: ((Scope.new shippedCatalog shippedOrder "e").resolveAll
      ["ship.to.city", "ship_to.city"]).joinList.map Join.label).Nodup ∧
    ∃ plan, (PagePlan.build shippedCatalog shippedOrder Backend.postgres.capabilities
        { Request.all with ordering := [⟨"ship.to.city", true⟩, ⟨"ship_to.city", true⟩] } false none false).2 =
          .ok plan ∧
      plan.data.statement.joins.map (fun j => (j.table, j.label)) =
        [("shipments", "e_ship"), ("addresses", "e_ship_to"), ("addresses", "e_ship_to")] :=
  ⟨by decide +kernel, exists_ok (by decide +kernel)⟩

end PageQuery
