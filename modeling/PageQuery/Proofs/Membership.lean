import Mathlib.Data.List.Perm.Subperm
import PageQuery.Proofs.Held
import PageQuery.Proofs.Numbering
/-!
# Lists of values on collections

A list of plain values on a collection keeps the joined rows that show one of its values, and where it has several, asks
of a group that its rows show as many different ones.  As long as the database compares values exactly, rows that show
nothing but values of the list show all of them just if the count is right.
-/
namespace PageQuery

variable {d : Dialect} {db : Store}

/-! ## Values that a database tells apart -/

/-- The database compares values as they are: truth values, whole numbers and text are equal to themselves only, and
finite doubles to those that are the same number. -/
structure Dialect.Exact (d : Dialect) : Prop where
  boolean : ∀ a b, d.rank (.boolean a) = d.rank (.boolean b) → a = b
  word : ∀ m n, d.rank (.int64 m) = d.rank (.int64 n) → m = n
  text : ∀ s t, d.rank (.text s) = d.rank (.text t) → s = t
  double : ∀ x y : Binary64, x.isFinite = true → y.isFinite = true →
    (d.rank (.double x) = d.rank (.double y) ↔ x.same y = true)

theorem exact_plain : Dialect.plain.Exact where
  boolean := fun a b h => by cases a <;> cases b <;> simp [Dialect.plain, Value.plainRank] at h <;> rfl
  word := fun m n h => by
    simp only [Dialect.plain, Value.plainRank, Value.units?, Option.getD_some, EmbeddingLike.apply_eq_iff_eq,
      Prod.mk.injEq, true_and, and_true] at h
    have hunit : Binary64.unitsInOne ≠ 0 := by decide +kernel
    exact Int64.toInt_inj.1 (Int.eq_of_mul_eq_mul_right (Int.natCast_ne_zero.2 hunit) h)
  text := fun s t h => by simpa [Dialect.plain, Value.plainRank] using h
  double := fun x y hx hy => by
    cases x with
    | nan | infinite b => cases hx
    | finite b m =>
      cases y with
      | nan | infinite c => cases hy
      | finite c n =>
        cases b <;> cases c <;> simp [Dialect.plain, Value.plainRank, Value.units?, Binary64.same] <;> omega

/-- The values of a declared type. -/
def ValueType.Holds : ValueType → Value → Prop
  | .integer, .int64 _ | .boolean, .boolean _ | .text, .text _ | .enumerated _, .text _ => True
  | .float, .double x => x.isFinite = true
  | _, _ => False

theorem Dialect.Exact.rank_eq_iff (hd : d.Exact) : ∀ {t : ValueType} {v w : Value}, t.Holds v → t.Holds w →
    (d.rank v = d.rank w ↔ v.same w = true)
  | .integer, .int64 m, .int64 n, _, _ => by
    rw [show (Value.int64 m).same (.int64 n) = (Value.int64 m == .int64 n) from rfl, beq_iff_eq]
    exact ⟨fun h => congrArg _ (hd.word m n h), congrArg d.rank⟩
  | .boolean, .boolean a, .boolean b, _, _ => by
    rw [show (Value.boolean a).same (.boolean b) = (Value.boolean a == .boolean b) from rfl, beq_iff_eq]
    exact ⟨fun h => congrArg _ (hd.boolean a b h), congrArg d.rank⟩
  | .text, .text s, .text t, _, _ | .enumerated _, .text s, .text t, _, _ => by
    rw [show (Value.text s).same (.text t) = (Value.text s == .text t) from rfl, beq_iff_eq]
    exact ⟨fun h => congrArg _ (hd.text s t h), congrArg d.rank⟩
  | .float, .double x, .double y, hx, hy => hd.double x y hx hy

theorem Literal.toElement_holds {l : Literal} {t : ValueType} {v : Value} (h : l.toElement t = .ok v) : t.Holds v := by
  have hmapped : ∀ {α : Type} {x : Except CriterionFault α} {g : α → Value}, x.map g = .ok v →
      ∃ a, x = .ok a ∧ g a = v := fun {_ x _} hx => by
    cases x with
    | error e => cases hx
    | ok a =>
      cases hx
      exact ⟨a, rfl, rfl⟩
  have hfinite : ∀ {x y : Binary64}, finiteOnly x = .ok y → y.isFinite = true := fun {x y} hx => by
    unfold finiteOnly at hx
    split at hx
    · next hx' =>
      cases hx
      exact hx'
    · cases hx
  cases t with
  | integer =>
    obtain ⟨n, -, rfl⟩ := hmapped h
    exact trivial
  | float =>
    obtain ⟨x, hx, rfl⟩ := hmapped h
    unfold toDouble at hx
    split at hx
    · exact hfinite hx
    · exact hfinite hx
    · split at hx
      · exact hfinite hx
      · cases hx
    · cases hx
  | text =>
    cases l with
    | text s =>
      cases h
      exact trivial
    | integer | float | boolean => cases h
  | boolean =>
    obtain ⟨b, -, rfl⟩ := hmapped h
    exact trivial
  | enumerated e =>
    obtain ⟨s, -, rfl⟩ := hmapped h
    exact trivial
  | reference entity => cases h

theorem elementsOf_cons {t : ValueType} {c : Criterion} {cs : List Criterion} {vs : List Value}
    (h : elementsOf t (c :: cs) = .ok vs) :
    ∃ l w ws, c = .value l ∧ l.toElement t = .ok w ∧ elementsOf t cs = .ok ws ∧ vs = w :: ws := by
  cases c with
  | value l =>
    cases hl : l.toElement t with
    | error e => simp [elementsOf, hl, bind, Except.bind] at h
    | ok w =>
      cases hcs : elementsOf t cs with
      | error e => simp [elementsOf, hl, hcs, bind, Except.bind] at h
      | ok ws =>
        simp only [elementsOf, hl, hcs, bind, Except.bind, Except.ok.injEq] at h
        exact ⟨l, w, ws, rfl, hl, rfl, h.symm⟩
  | null | negation | alternatives | numeric | enumerated | boolean | textMatch => cases h

theorem variantsOf_cons {e : EnumType} {l : Literal} {ls : List Literal} {vs : List String}
    (h : variantsOf e (l :: ls) = .ok vs) :
    ∃ v ws, l.toVariant e = .ok v ∧ variantsOf e ls = .ok ws ∧ vs = v :: ws := by
  cases hl : l.toVariant e with
  | error fault => simp [variantsOf, hl, bind, Except.bind] at h
  | ok v =>
    cases hls : variantsOf e ls with
    | error fault => simp [variantsOf, hl, hls, bind, Except.bind] at h
    | ok ws =>
      simp only [variantsOf, hl, hls, bind, Except.bind, Except.ok.injEq] at h
      exact ⟨v, ws, rfl, rfl, h.symm⟩

theorem elementsOf_holds {t : ValueType} : ∀ {cs : List Criterion} {vs : List Value}, elementsOf t cs = .ok vs →
    ∀ v ∈ vs, t.Holds v
  | [], _, h, v, hv => by
    cases h
    cases hv
  | c :: cs, vs, h, v, hv => by
    obtain ⟨l, w, ws, rfl, hl, hcs, rfl⟩ := elementsOf_cons h
    rcases List.mem_cons.1 hv with rfl | hv
    · exact Literal.toElement_holds hl
    · exact elementsOf_holds hcs v hv

/-! ## The different values of a list -/

section
variable (hd : d.Exact) {t : ValueType}
include hd

theorem ranks_distinct_from : ∀ {vs kept : List Value}, (∀ v ∈ kept, t.Holds v) → (∀ v ∈ vs, t.Holds v) →
    (kept.map d.rank).Nodup →
    ((vs.foldl (fun kept v => if kept.any v.same then kept else kept ++ [v]) kept).map d.rank).Nodup ∧
      ∀ x, x ∈ (vs.foldl (fun kept v => if kept.any v.same then kept else kept ++ [v]) kept).map d.rank ↔
        x ∈ kept.map d.rank ∨ x ∈ vs.map d.rank
  | [], kept, _, _, hnodup => ⟨hnodup, fun x => by simp⟩
  | v :: vs, kept, hkept, hvs, hnodup => by
    have hv := hvs v List.mem_cons_self
    have hthere : kept.any v.same = true ↔ d.rank v ∈ kept.map d.rank := by
      rw [List.any_eq_true, List.mem_map]
      constructor
      · rintro ⟨w, hw, hsame⟩
        exact ⟨w, hw, ((hd.rank_eq_iff hv (hkept w hw)).2 hsame).symm⟩
      · rintro ⟨w, hw, hrank⟩
        exact ⟨w, hw, (hd.rank_eq_iff hv (hkept w hw)).1 hrank.symm⟩
    have hlater : ∀ w ∈ vs, t.Holds w := fun w hw => hvs w (List.mem_cons_of_mem v hw)
    rw [List.foldl_cons, List.map_cons]
    by_cases h : kept.any v.same = true
    · rw [if_pos h]
      obtain ⟨hranks, hmem⟩ := ranks_distinct_from hkept hlater hnodup
      refine ⟨hranks, fun x => ?_⟩
      rw [hmem, List.mem_cons]
      constructor
      · tauto
      · rintro (hx | rfl | hx)
        · exact .inl hx
        · exact .inl (hthere.1 h)
        · exact .inr hx
    · rw [if_neg h]
      obtain ⟨hranks, hmem⟩ := ranks_distinct_from (fun w hw => by
        rcases List.mem_append.1 hw with hw | hw
        · exact hkept w hw
        · exact List.mem_singleton.1 hw ▸ hv) hlater (by
        rw [List.map_append]
        refine List.nodup_append.2 ⟨hnodup, List.nodup_singleton _, fun x hx y hy => ?_⟩
        rw [List.mem_singleton.1 hy]
        rintro rfl
        exact h (hthere.2 hx))
      refine ⟨hranks, fun x => ?_⟩
      rw [hmem, List.map_append, List.mem_append, List.mem_cons, or_assoc]
      simp

theorem ranks_distinct {vs : List Value} (hvs : ∀ v ∈ vs, t.Holds v) :
    ((Value.distinct vs).map d.rank).Nodup ∧ ∀ x, x ∈ (Value.distinct vs).map d.rank ↔ x ∈ vs.map d.rank := by
  obtain ⟨hranks, hmem⟩ := ranks_distinct_from hd (fun v hv => (List.not_mem_nil hv).elim) hvs .nil
  exact ⟨hranks, fun x => (hmem x).trans (by simp)⟩

end

/-! ## The test of a list -/

theorem Dialect.equal_value {c : Cell} {v : Value} : d.equal c (some v) = true ↔ d.key c = some (d.rank v) := by
  unfold Dialect.equal
  cases c <;> simp [Dialect.key]

def listPredicate (field : String) (c : Column) (vs : List Value) : Predicate :=
  ⟨field, .inValues (.column c) (Value.distinct vs), .row, some ⟨.column c, (Value.distinct vs).length⟩⟩

def shownRanks (d : Dialect) (c : Column) (g : List Tuple) : List d.Rank :=
  ((g.map fun w => w.cell c).filterMap id).map d.rank

theorem mem_shownRanks {c : Column} {g : List Tuple} {x : d.Rank} :
    x ∈ shownRanks d c g ↔ ∃ w ∈ g, d.key (w.cell c) = some x := by
  simp only [shownRanks, List.filterMap_map, List.map_filterMap, List.mem_filterMap]
  rfl

theorem eval_countDistinct (c : Column) (g : List Tuple) : (Expr.call .countDistinct (.column c)).eval d db g =
    some (countValue (shownRanks d c g).dedup.length) := by
  simp only [Expr.eval, Function.isAggregate, if_true, List.headD_cons]
  rfl

theorem countValue_inj {m n : Nat} (hm : m < 2 ^ 64) (hn : n < 2 ^ 64) (h : Int64.ofNat m = Int64.ofNat n) : m = n := by
  have hbits := congrArg (fun x : Int64 => x.toBitVec.toNat) h
  simp at hbits
  omega

/-- The count of a list asks that as many different values are shown as there are, if some are and no others. -/
theorem holdsAll_countTest_iff (hd : d.Exact) {field : String} {c : Column} {vs : List Value} {g : List Tuple}
    (hlength : (Value.distinct vs).length < 2 ^ 64)
    (hle : (shownRanks d c g).dedup.length ≤ (Value.distinct vs).length) (hne : shownRanks d c g ≠ []) :
    holdsAll d db (listPredicate field c vs).countTest.toList g = true ↔
      (shownRanks d c g).dedup.length = (Value.distinct vs).length := by
  by_cases hmany : 1 < (Value.distinct vs).length
  · have hcount : (listPredicate field c vs).countTest = some (.compare .eq (.call .countDistinct (.column c))
        (.value (.int64 (Int64.ofInt ((Value.distinct vs).length : Nat))))) := if_pos hmany
    rw [hcount, Option.toList_some, holdsAll, List.all_cons, List.all_nil, Bool.and_true, Expr.eval, eval_countDistinct,
      Expr.eval, isTrue_compare_eq _ rfl, decide_eq_true_iff, Int64.ofInt_eq_ofNat]
    constructor
    · intro h
      exact countValue_inj (lt_of_le_of_lt hle hlength) hlength (hd.word _ _ (Option.some.inj h))
    · intro h
      rw [h]
      rfl
  · have hcount : (listPredicate field c vs).countTest = none := if_neg hmany
    have hpos : 0 < (shownRanks d c g).dedup.length := by
      obtain ⟨x, hx⟩ := List.exists_mem_of_ne_nil _ hne
      exact List.length_pos_of_mem (List.mem_dedup.2 hx)
    rw [hcount]
    exact ⟨fun _ => by omega, fun _ => rfl⟩

theorem dedup_length_eq_iff {α : Type} [DecidableEq α] {xs ys : List α} (hys : ys.Nodup) (hsub : xs ⊆ ys) :
    xs.dedup.length = ys.length ↔ ys ⊆ xs := by
  have hdedup : xs.dedup.Subperm ys :=
    List.subperm_of_subset (List.nodup_dedup xs) fun x hx => hsub (List.mem_dedup.1 hx)
  constructor
  · intro hlength x hx
    exact List.mem_dedup.1 ((hdedup.perm_of_length_le hlength.ge).mem_iff.2 hx)
  · intro hsup
    exact le_antisymm hdedup.length_le (List.subperm_of_subset hys fun x hx => List.mem_dedup.2 (hsup hx)).length_le

section
variable (hd : d.Exact) {t : ValueType} {vs : List Value} (hvs : ∀ v ∈ vs, t.Holds v) {c : Column} {field : String}
include hd hvs

theorem isTrue_listPredicate (w : Tuple) : isTrue ((listPredicate field c vs).expr.eval d db [w]) = true ↔
    ∃ v ∈ vs, d.equal (w.cell c) (some v) = true := by
  have hranks := (ranks_distinct hd hvs).2
  simp only [listPredicate, Expr.eval, List.headD_cons, isTrue_among, List.any_map, List.any_eq_true,
    Function.comp_apply, Dialect.equal_value]
  constructor
  · rintro ⟨v, hv, hkey⟩
    obtain ⟨u, hu, hrank⟩ := List.mem_map.1 ((hranks _).1 (List.mem_map_of_mem hv))
    exact ⟨u, hu, by rw [hkey, hrank]⟩
  · rintro ⟨v, hv, hkey⟩
    obtain ⟨u, hu, hrank⟩ := List.mem_map.1 ((hranks _).2 (List.mem_map_of_mem hv))
    exact ⟨u, hu, by rw [hkey, hrank]⟩

/-- **A group of rows that pass has the right count just if they show every value of the list.** -/
theorem holdsAll_countTest (hlength : vs.length < 2 ^ 64) {g : List Tuple} (hne : g ≠ [])
    (hg : ∀ w ∈ g, ∃ v ∈ vs, d.equal (w.cell c) (some v) = true) :
    holdsAll d db (listPredicate field c vs).countTest.toList g = true ↔
      ∀ v ∈ vs, ∃ w ∈ g, d.equal (w.cell c) (some v) = true := by
  obtain ⟨hnodup, hranks⟩ := ranks_distinct hd hvs
  have hsub : shownRanks d c g ⊆ (Value.distinct vs).map d.rank := by
    intro x hx
    obtain ⟨w, hw, hkey⟩ := mem_shownRanks.1 hx
    obtain ⟨v, hv, hequal⟩ := hg w hw
    rw [Dialect.equal_value, hkey, Option.some.injEq] at hequal
    exact (hranks x).2 (hequal ▸ List.mem_map_of_mem hv)
  have hsome : shownRanks d c g ≠ [] := by
    obtain ⟨w, hw⟩ := List.exists_mem_of_ne_nil g hne
    obtain ⟨v, -, hequal⟩ := hg w hw
    exact List.ne_nil_of_mem (mem_shownRanks.2 ⟨w, hw, Dialect.equal_value.1 hequal⟩)
  -- the rows show nothing but values of the list, so a full count means all of them
  have hle : (shownRanks d c g).dedup.length ≤ ((Value.distinct vs).map d.rank).length :=
    (List.subperm_of_subset (List.nodup_dedup _) fun x hx => hsub (List.mem_dedup.1 hx)).length_le
  have hfits : ((Value.distinct vs).map d.rank).length ≤ (vs.map d.rank).length :=
    (List.subperm_of_subset hnodup fun x hx => (hranks x).1 hx).length_le
  have hcount := dedup_length_eq_iff hnodup hsub
  rw [List.length_map] at hle hcount
  rw [List.length_map, List.length_map] at hfits
  rw [holdsAll_countTest_iff hd (lt_of_le_of_lt hfits hlength) hle hsome, hcount]
  constructor
  · intro h v hv
    obtain ⟨w, hw, hkey⟩ := mem_shownRanks.1 (h ((hranks _).2 (List.mem_map_of_mem hv)))
    exact ⟨w, hw, Dialect.equal_value.2 hkey⟩
  · intro h x hx
    obtain ⟨v, hv, rfl⟩ := List.mem_map.1 ((hranks x).1 hx)
    obtain ⟨w, hw, hequal⟩ := h v hv
    exact mem_shownRanks.2 ⟨w, hw, Dialect.equal_value.1 hequal⟩

end

/-! ## Filters on collections -/

theorem length_elementsOf {t : ValueType} : ∀ {cs : List Criterion} {vs : List Value}, elementsOf t cs = .ok vs →
    vs.length = cs.length
  | [], _, h => by
    cases h
    rfl
  | c :: cs, vs, h => by
    obtain ⟨l, w, ws, rfl, -, hcs, rfl⟩ := elementsOf_cons h
    exact congrArg Nat.succ (length_elementsOf hcs)

theorem build_list {t : Term} (ht : t.isCollection = true) {items : List Criterion} {b : Built}
    (h : ((Criterion.alternatives items).build t).outcome = .ok b) :
    ∃ vs, elementsOf t.type items = .ok vs ∧
      b = ⟨.inValues t.expr (Value.distinct vs), some (Value.distinct vs).length⟩ := by
  simp only [Criterion.build, ht, if_true, buildMembership] at h
  cases hvs : elementsOf t.type items with
  | error e =>
    rw [hvs] at h
    cases h
  | ok vs =>
    rw [hvs] at h
    cases h
    exact ⟨vs, rfl, rfl⟩

/-- The filter asks a collection at an unmarked path for a list of plain values, not more than a word counts, and
compiles. -/
structure Filter.AsksMembership (catalog : Catalog) (root : Entity) (f : Filter) : Prop where
  unmarked : hasChar '@' f.path = false
  collection : (catalog.tableAlong? root (splitText '.' f.path)).isSome = true
  literals : ∃ ls : List Literal, ls ≠ [] ∧ ls.length < 2 ^ 64 ∧ f.criterion = .alternatives (ls.map .value)
  compiles : ∃ p, (compile (Scope.new catalog root dataLabel) f.path f.criterion []).outcome = .ok p

namespace Filter
variable (catalog : Catalog) (root : Entity) (f : Filter)

def values : List Value :=
  match catalog.tableAlong? root (splitText '.' f.path), f.criterion with
  | some v, .alternatives items => (elementsOf v.type items).toOption.getD []
  | _, _ => []

/-- The joins that lead to the collection.  Not to be unfolded by the way: what the marked path is cut into is long. -/
@[irreducible] def joins : List KeyedJoin := ((Scope.new catalog root dataLabel).trace (membershipPath f.path)).1

theorem joins_eq : f.joins catalog root = ((Scope.new catalog root dataLabel).trace (membershipPath f.path)).1 := by
  rw [joins]

def column : Column :=
  match ((Scope.new catalog root dataLabel).trace (membershipPath f.path)).2 with
  | .ok ⟨.column c, _, _⟩ => c
  | _ => ⟨dataLabel, root.identityColumn⟩

/-- The collection holds a value, for a root row. -/
def HeldBy (d : Dialect) (db : Store) (row : Row) (v : Value) : Prop :=
  ∃ c ∈ db.held d catalog root (splitText '.' f.path) row, d.equal c (some v) = true

instance (d : Dialect) (db : Store) (row : Row) (v : Value) : Decidable (f.HeldBy catalog root d db row v) :=
  inferInstanceAs (Decidable (∃ c ∈ db.held d catalog root (splitText '.' f.path) row, d.equal c (some v) = true))

theorem joins_made : ∀ j ∈ f.joins catalog root, j.Made catalog dataLabel := by
  rw [joins_eq]
  exact (Scope.trace_made (Scope.new catalog root dataLabel) (membershipPath f.path)).1

theorem joins_inOrder : Join.InOrder [dataLabel] ((f.joins catalog root).map KeyedJoin.join) := by
  rw [joins_eq]
  generalize membershipPath f.path = path
  exact Scope.trace_inOrder (Scope.new catalog root dataLabel) path

variable {catalog root f}

/-- What is known of a filter that asks for membership: its joins show the collection in its column, and its values are
such as the collection may hold, one of them at least. -/
structure ReadsCollection (catalog : Catalog) (root : Entity) (f : Filter) (v : ValueTable) : Prop where
  column : (f.column catalog root).name = v.value
  shows : (Scope.new catalog root dataLabel).Shows (f.joins catalog root) (splitText '.' f.path)
    (f.column catalog root).source v
  keys : ((f.joins catalog root).map KeyedJoin.key).Nodup
  holds : ∀ x ∈ f.values catalog root, v.type.Holds x
  ne_nil : f.values catalog root ≠ []
  length : (f.values catalog root).length < 2 ^ 64

theorem AsksMembership.compile_base (h : f.AsksMembership catalog root) :
    (∃ v, f.ReadsCollection catalog root v) ∧
    (compileOnTerm (Scope.new catalog root dataLabel) f.path f.criterion []).scope =
      (Scope.new catalog root dataLabel).addJoins (f.joins catalog root) ∧
    (compileOnTerm (Scope.new catalog root dataLabel) f.path f.criterion []).outcome =
      .ok (listPredicate f.path (f.column catalog root) (f.values catalog root)) := by
  obtain ⟨ls, hne, hlength, hcriterion⟩ := h.literals
  obtain ⟨v, hv⟩ := Option.isSome_iff_exists.1 h.collection
  obtain ⟨p, hp⟩ := h.compiles
  rw [hcriterion] at hp ⊢
  change (compileOnTerm _ _ _ _).outcome = _ at hp
  unfold compileOnTerm at hp ⊢
  rcases hfound : (Scope.new catalog root dataLabel).filterTarget f.path with ⟨s, e | t⟩
  · rw [hfound] at hp
    cases hp
  · obtain ⟨htarget, htrace, source, rfl, hshows⟩ := Scope.filterTarget_shows
      (s := Scope.new catalog root dataLabel) rfl h.unmarked hv (by rw [hfound])
    rw [htarget, Prod.mk.injEq] at hfound
    obtain ⟨rfl, -⟩ := hfound
    have hcolumn : f.column catalog root = ⟨source, v.value⟩ := by
      unfold column
      rw [htrace]
      rfl
    rw [htarget] at hp
    simp only at hp ⊢
    cases hb : ((Criterion.alternatives (ls.map .value)).build
        ⟨Expr.col source v.value, v.type, .collection⟩).outcome with
    | error e =>
      rw [hb] at hp
      cases hp
    | ok b =>
      obtain ⟨vs, hvs, rfl⟩ := build_list rfl hb
      have hvalues : f.values catalog root = vs := by
        unfold values
        rw [hv, hcriterion]
        simp only [hvs]
        rfl
      have hsame : vs.length = ls.length := by rw [length_elementsOf hvs, List.length_map]
      refine ⟨⟨v, by rw [hcolumn], ?_, ?_, ?_, ?_, ?_⟩, by rw [joins_eq], ?_⟩
      · rw [hcolumn, joins_eq]
        exact hshows
      · rw [joins_eq]
        exact Scope.trace_keys htrace
      · rw [hvalues]
        exact elementsOf_holds hvs
      · rw [hvalues]
        rintro rfl
        exact hne (List.length_eq_zero_iff.1 hsame.symm)
      · rw [hvalues, hsame]
        exact hlength
      · rw [hcolumn, hvalues]
        rfl

def predicate (catalog : Catalog) (root : Entity) (f : Filter) : Predicate :=
  listPredicate f.path (f.column catalog root) (f.values catalog root)

theorem AsksMembership.compile (h : f.AsksMembership catalog root) {s : Scope} (hs : s.fields = [])
    (hbase : s.base = Scope.new catalog root dataLabel) (ps : List Parameter) :
    (compile s f.path f.criterion ps).scope = s.addJoins (f.joins catalog root) ∧
      (compile s f.path f.criterion ps).outcome = .ok (f.predicate catalog root) := by
  obtain ⟨ls, -, -, hcriterion⟩ := h.literals
  have hplain : PageQuery.compile s f.path f.criterion ps = compileOnTerm s f.path f.criterion ps := by
    rw [hcriterion]
    rfl
  have hempty : s.addJoins (Scope.new catalog root dataLabel).joins = s := rfl
  obtain ⟨-, hscope, houtcome⟩ := h.compile_base
  rw [hplain, compileOnTerm_fresh hs, hbase, hscope, Scope.addJoins_joins_addJoins, hempty]
  refine ⟨?_, houtcome⟩
  dsimp only

end Filter

theorem compileAll_memberships {catalog : Catalog} {root : Entity} : ∀ {fs : List Filter} {s : Scope}
    (ps : List Parameter), (∀ f ∈ fs, f.AsksMembership catalog root) → s.fields = [] →
      s.base = Scope.new catalog root dataLabel →
      (compileAll s ps fs).scope = s.addPaths (fs.map fun f => membershipPath f.path) ∧
        (compileAll s ps fs).outcome = .ok (fs.map (Filter.predicate catalog root))
  | [], _, _, _, _, _ => ⟨rfl, rfl⟩
  | f :: fs, s, ps, hfs, hs, hbase => by
    obtain ⟨hscope, houtcome⟩ := (hfs f List.mem_cons_self).compile hs hbase ps
    have hjoins : (s.trace (membershipPath f.path)).1 = f.joins catalog root := by
      rw [← Scope.trace_base, hbase, Filter.joins_eq]
    obtain ⟨hlater, hpredicates⟩ := compileAll_memberships (s := s.addJoins (f.joins catalog root))
      (compile s f.path f.criterion ps).parameters (fun g hg => hfs g (List.mem_cons_of_mem f hg))
      ((Scope.fields_addJoins s _).trans hs) ((Scope.base_addJoins s _).trans hbase)
    unfold compileAll
    simp only [houtcome, hscope]
    rw [hlater, hpredicates, List.map_cons, Scope.addPaths, hjoins]
    exact ⟨rfl, rfl⟩

end PageQuery
