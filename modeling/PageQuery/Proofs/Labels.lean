import PageQuery.Proofs.Relabel
/-!
# Compiling under another label

A root label stands in a scope as a name only: joins and subqueries make their labels from it by writing an underscore
and a name behind it.  So a change of labels that leaves alone what is written behind the root label commutes with all
that is compiled there, from a path to the preparation of a request.
-/
namespace PageQuery

/-- The change of labels keeps what is written behind a label. -/
def KeepsBehind (f : String → String) (label : String) : Prop := ∀ x, f (label ++ "_" ++ x) = f label ++ "_" ++ x

namespace KeepsBehind
variable {f : String → String} {label : String}

theorem joinLabel (h : KeepsBehind f label) (key : String) :
    f (PageQuery.joinLabel label key) = PageQuery.joinLabel (f label) key := h _

theorem sub_eq (x : String) : "_sub" ++ x = "_" ++ ("sub" ++ x) := by
  rw [← String.append_assoc]
  rfl

theorem subquery (h : KeepsBehind f label) (x : String) : f (label ++ "_sub" ++ x) = f label ++ "_sub" ++ x := by
  have hx := h ("sub" ++ x)
  rw [String.append_assoc, ← sub_eq, String.append_assoc, ← sub_eq] at hx
  rw [String.append_assoc, hx, String.append_assoc]

theorem behind (h : KeepsBehind f label) (x : String) : KeepsBehind f (label ++ "_sub" ++ x) := by
  intro y
  have hxy := h.subquery (x ++ "_" ++ y)
  rw [h.subquery]
  simpa only [String.append_assoc] using hxy

end KeepsBehind

/-! ## Replacing a root label -/

/-- The label with the root label `a`, alone or before an underscore, replaced by `b`. -/
def rebase (a b l : String) : String :=
  if l = a then b
  else if (a ++ "_").toList.isPrefixOf l.toList then
    b ++ "_" ++ String.ofList (l.toList.drop (a ++ "_").toList.length)
  else l

theorem rebase_self (a b : String) : rebase a b a = b := if_pos rfl

theorem behind_ne (a x : String) : a ++ "_" ++ x ≠ a := by
  intro h
  have hlength := congrArg String.length h
  simp only [String.length_append] at hlength
  have hone : ("_" : String).length = 1 := rfl
  omega

theorem rebase_behind (a b x : String) : rebase a b (a ++ "_" ++ x) = b ++ "_" ++ x := by
  have hlist : (a ++ "_" ++ x).toList = (a ++ "_").toList ++ x.toList := String.toList_append
  have hprefix : (a ++ "_").toList.isPrefixOf (a ++ "_" ++ x).toList = true := by
    rw [hlist, List.isPrefixOf_iff_prefix]
    exact List.prefix_append _ _
  unfold rebase
  rw [if_neg (behind_ne a x), if_pos hprefix, hlist, List.drop_left, String.ofList_toList]

theorem keepsBehind_rebase (a b : String) : KeepsBehind (rebase a b) a := fun x => by
  rw [rebase_behind, rebase_self]

theorem rebase_cases (a b l : String) :
    (l = a ∧ rebase a b l = b) ∨ (∃ x, l = a ++ "_" ++ x ∧ rebase a b l = b ++ "_" ++ x) ∨
      (l ≠ a ∧ (∀ x, l ≠ a ++ "_" ++ x) ∧ rebase a b l = l) := by
  by_cases hself : l = a
  · exact .inl ⟨hself, hself ▸ rebase_self a b⟩
  · by_cases hbehind : ∃ x, l = a ++ "_" ++ x
    · obtain ⟨x, rfl⟩ := hbehind
      exact .inr (.inl ⟨x, rfl, rebase_behind a b x⟩)
    · have hnone : ∀ x, l ≠ a ++ "_" ++ x := fun x hx => hbehind ⟨x, hx⟩
      refine .inr (.inr ⟨hself, hnone, ?_⟩)
      unfold rebase
      rw [if_neg hself, if_neg]
      intro hprefix
      obtain ⟨t, ht⟩ := List.isPrefixOf_iff_prefix.1 hprefix
      have hlist : (a ++ "_" ++ String.ofList t).toList = (a ++ "_").toList ++ t := by
        rw [String.toList_append, String.toList_ofList]
      exact hnone (String.ofList t) (String.toList_inj.1 (hlist.trans ht).symm)

/-- **Moving a root label to one behind it** keeps different labels different: they can be moved back. -/
theorem rebase_injective (a y : String) : Function.Injective (rebase a (a ++ "_" ++ y)) := by
  refine Function.LeftInverse.injective (g := rebase (a ++ "_" ++ y) a) fun l => ?_
  rcases rebase_cases a (a ++ "_" ++ y) l with ⟨rfl, hl⟩ | ⟨x, rfl, hl⟩ | ⟨hne, hnone, hl⟩
  · rw [hl, rebase_self]
  · rw [hl, rebase_behind]
  · rw [hl]
    rcases rebase_cases (a ++ "_" ++ y) a l with ⟨rfl, -⟩ | ⟨x, rfl, -⟩ | ⟨-, -, hback⟩
    · exact absurd rfl (hnone y)
    · refine absurd ?_ (hnone (y ++ "_" ++ x))
      simp only [String.append_assoc]
    · exact hback

/-! ## Scopes under other labels -/

def Term.relabel (f : String → String) (t : Term) : Term := { t with expr := t.expr.relabel f }

def KeyedJoin.relabel (f : String → String) (j : KeyedJoin) : KeyedJoin := ⟨j.key, j.join.relabel f⟩

def Position.relabel (f : String → String) (p : Position) : Position := { p with label := f p.label }

def Projection.relabel (f : String → String) (p : Projection) : Projection := p.map fun x => (x.1, x.2.relabel f)

namespace Scope
variable {f : String → String} {s : Scope}

def relabel (f : String → String) (s : Scope) : Scope :=
  { s with label := f s.label, joins := s.joins.map (KeyedJoin.relabel f), fields := Projection.relabel f s.fields }

def relabelFound (f : String → String) (x : Scope × Except Failure Term) : Scope × Except Failure Term :=
  (x.1.relabel f, x.2.map (Term.relabel f))

theorem new_relabel (catalog : Catalog) (root : Entity) (label : String) :
    new catalog root (f label) = (new catalog root label).relabel f := rfl

theorem identity_relabel : (s.relabel f).identity = s.identity.relabel f := by
  simp [identity, relabel, Term.relabel, Expr.col, Expr.relabel, Column.relabel]

theorem joinList_relabel : (s.relabel f).joinList = s.joinList.map (Join.relabel f) := by
  simp [joinList, relabel, KeyedJoin.relabel, Function.comp_def]

theorem hasToManyJoins_relabel : (s.relabel f).hasToManyJoins = s.hasToManyJoins := by
  simp [hasToManyJoins, relabel, KeyedJoin.relabel, Join.relabel, Function.comp_def]

theorem joinAt_relabel (hf : KeepsBehind f s.label) (key table column : String) (owner : Column) (toMany : Bool) :
    (s.relabel f).joinAt key table column (owner.relabel f) toMany =
      (s.joinAt key table column owner toMany).relabel f := by
  simp only [joinAt, KeyedJoin.relabel, Join.relabel, hf.joinLabel]
  rfl

/-! ## Paths -/

theorem step_relabel (hf : KeepsBehind f s.label) (path : String) (p : Position) (segment : String) :
    (s.relabel f).step path (p.relabel f) segment =
      (s.step path p segment).map (Prod.map (KeyedJoin.relabel f) (Position.relabel f)) := by
  unfold step
  split
  · rfl
  · show (p.entity.lookup segment >>= _) = _
    cases p.entity.lookup segment with
    | error e => rfl
    | ok a =>
      obtain ⟨name, type, storage⟩ := a
      cases storage with
      | column c => rfl
      | collection t k v => rfl
      | toOne target key | toMany target column =>
        show (s.catalog.require target >>= _) = Except.map _ (s.catalog.require target >>= _)
        cases s.catalog.require target with
        | error e => rfl
        | ok e =>
          simp only [bind, Except.bind, Except.map, Prod.map, Position.relabel, ← joinAt_relabel hf]
          simp only [joinAt, relabel, Column.relabel, hf.joinLabel]

theorem walk_relabel (hf : KeepsBehind f s.label) (path : String) (segments : List String) :
    ∀ p : Position, (s.relabel f).walk path (p.relabel f) segments =
      Prod.map (List.map (KeyedJoin.relabel f)) (Except.map (Position.relabel f)) (s.walk path p segments) := by
  induction segments with
  | nil => exact fun p => rfl
  | cons segment rest ih =>
    intro p
    simp only [walk, step_relabel hf]
    cases s.step path p segment with
    | error e => rfl
    | ok jq =>
      obtain ⟨j, q⟩ := jq
      simp only [Except.map, Prod.map, ih q, List.map_cons]

theorem leaf_relabel (hf : KeepsBehind f s.label) (path : String) (p : Position) (segment : String) :
    (s.relabel f).leaf path (p.relabel f) segment =
      (s.leaf path p segment).map (Prod.map (Option.map (KeyedJoin.relabel f)) (Term.relabel f)) := by
  unfold leaf
  cases parseMarker path segment with
  | error e => rfl
  | ok nm =>
    obtain ⟨name, marker⟩ := nm
    show (p.entity.lookup name >>= _) = Except.map _ (p.entity.lookup name >>= _)
    cases p.entity.lookup name with
    | error e => rfl
    | ok a =>
      obtain ⟨_, type, storage⟩ := a
      cases storage with
      | column c =>
        cases marker with
        | plain => simp [Except.map, Prod.map, Term.relabel, Position.relabel, Expr.col, Expr.relabel, Column.relabel,
            bind, Except.bind]
        | shared | membership => rfl
      | toOne target key =>
        cases marker with
        | plain =>
          show (s.catalog.require target >>= _) = Except.map _ (s.catalog.require target >>= _)
          cases s.catalog.require target with
          | error e => rfl
          | ok e => simp [Except.map, Prod.map, Term.relabel, Position.relabel, Expr.col, Expr.relabel, Column.relabel,
              bind, Except.bind]
        | shared | membership => rfl
      | toMany target column =>
        cases marker with
        | plain | shared | membership =>
          show (s.catalog.require target >>= _) = Except.map _ (s.catalog.require target >>= _)
          cases s.catalog.require target with
          | error e => rfl
          | ok e => simp [joinAt, relabel, KeyedJoin.relabel, Join.relabel, hf.joinLabel, Except.map, Prod.map,
              Term.relabel, Position.relabel, Expr.col, Expr.relabel, Column.relabel, bind, Except.bind]
      | collection table ownerKey valueColumn =>
        cases marker with
        | plain | shared | membership => simp [joinAt, relabel, KeyedJoin.relabel, Join.relabel, hf.joinLabel,
            Except.map, Prod.map, Term.relabel, Position.relabel, Expr.col, Expr.relabel, Column.relabel, bind,
            Except.bind]

theorem trace_relabel (hf : KeepsBehind f s.label) (path : String) :
    (s.relabel f).trace path =
      Prod.map (List.map (KeyedJoin.relabel f)) (Except.map (Term.relabel f)) (s.trace path) := by
  have hstart : (s.relabel f).start = s.start.relabel f := rfl
  unfold trace
  cases FieldPath.parse path with
  | error e => rfl
  | ok segments =>
    simp only [hstart, walk_relabel hf]
    rcases s.walk path s.start segments.parents with ⟨js, e | p⟩
    · rfl
    · simp only [Prod.map, Except.map, leaf_relabel hf]
      rcases s.leaf path p segments.last with e | ⟨j, t⟩
      · rfl
      · cases j <;> simp

theorem terminal_relabel (hf : KeepsBehind f s.label) (path : String) :
    (s.relabel f).terminal path = s.terminal path := by
  have hstart : (s.relabel f).start = s.start.relabel f := rfl
  unfold terminal
  cases FieldPath.parse path with
  | error e => rfl
  | ok segments =>
    simp only [bind, Except.bind, hstart, walk_relabel hf, Prod.map]
    cases (s.walk path s.start segments.parents).2 with
    | error e => rfl
    | ok p => rfl

/-! ## Resolving -/

theorem field?_relabel (name : String) : (s.relabel f).field? name = (s.field? name).map (Term.relabel f) := by
  unfold field? relabel Projection.relabel
  induction s.fields with
  | nil => rfl
  | cons x fields ih =>
    obtain ⟨n, t⟩ := x
    simp only [List.map_cons, List.lookup_cons]
    cases name == n with
    | true => rfl
    | false => exact ih

theorem addJoin_relabel (j : KeyedJoin) : (s.relabel f).addJoin (j.relabel f) = (s.addJoin j).relabel f := by
  have hkeys : (s.relabel f).joins.any (fun k => k.key == (j.relabel f).key) =
      s.joins.any fun k => k.key == j.key := by
    simp [relabel, KeyedJoin.relabel, Function.comp_def]
  unfold addJoin
  rw [hkeys]
  split
  · rfl
  · simp [relabel]

theorem addJoins_relabel (js : List KeyedJoin) :
    (s.relabel f).addJoins (js.map (KeyedJoin.relabel f)) = (s.addJoins js).relabel f := by
  unfold addJoins
  induction js generalizing s with
  | nil => rfl
  | cons j js ih =>
    simp only [List.map_cons, List.foldl_cons]
    rw [addJoin_relabel, ih]

theorem resolve_relabel (hf : KeepsBehind f s.label) (path : String) :
    (s.relabel f).resolve path = relabelFound f (s.resolve path) := by
  unfold resolve
  rw [field?_relabel]
  cases s.field? path with
  | some t => rfl
  | none =>
    simp only [Option.map_none, trace_relabel hf, Prod.map, addJoins_relabel]
    rfl

theorem resolveMarked_relabel (hf : KeepsBehind f s.label) (mark : String → String) (path : String) :
    (s.relabel f).resolveMarked mark path = relabelFound f (s.resolveMarked mark path) := by
  unfold resolveMarked
  rw [field?_relabel, terminal_relabel hf]
  cases s.field? path with
  | some t => rfl
  | none =>
    cases s.terminal path with
    | error e => rfl
    | ok a => exact resolve_relabel hf _

theorem readTarget_relabel (hf : KeepsBehind f s.label) (path : String) :
    (s.relabel f).readTarget path = relabelFound f (s.readTarget path) := resolveMarked_relabel hf _ path

theorem filterTarget_relabel (hf : KeepsBehind f s.label) (path : String) :
    (s.relabel f).filterTarget path = relabelFound f (s.filterTarget path) := resolveMarked_relabel hf _ path

/-! ## Subqueries about the root row -/

theorem detached_relabel (hf : KeepsBehind f s.label) : (s.relabel f).detached = s.detached.relabel f := by
  unfold detached
  rw [← new_relabel, hf.subquery]
  rfl

theorem keepsBehind_detached (hf : KeepsBehind f s.label) : KeepsBehind f s.detached.label := hf.behind _

theorem opened_relabel : (s.relabel f).opened = s.opened.relabel f := rfl

theorem correlated_relabel (item outer : Expr) (conditions groupBy having : List Expr) :
    (s.relabel f).correlated (item.relabel f) (outer.relabel f) (conditions.map (Expr.relabel f))
        (groupBy.map (Expr.relabel f)) (having.map (Expr.relabel f)) =
      (s.correlated item outer conditions groupBy having).relabel f := by
  have hlink : Expr.eq (s.relabel f).identity.expr (outer.relabel f) = (Expr.eq s.identity.expr outer).relabel f := by
    rw [identity_relabel]
    simp [Expr.eq, Expr.relabel, Term.relabel]
  unfold correlated
  rw [Subquery.relabel_select, joinList_relabel, List.map_cons, hlink]
  rfl

end Scope
end PageQuery
