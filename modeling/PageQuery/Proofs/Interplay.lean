import PageQuery.Proofs.Complement
import PageQuery.Proofs.JoinLabels
import PageQuery.Proofs.Membership
/-!
# Lists on several collections

Every filter on a collection tests the joined rows of the statement, and filters whose paths cross the same to-many
relation, or end in the same collection, test them on one join.  A root row that is drawn holds what is asked of it: the
rows that passed show every required value, and some optional one.  The other way round, what a root row holds shows
together in one joined row only where the filters share no to-many join; the rows that two of them share must pass both.
-/
namespace PageQuery

variable {d : Dialect} {db : Store}

/-! ## Requests for memberships -/

/-- Every criterion asks a collection for values, and no two joins of the criteria share a label. -/
structure Request.AsksMemberships (catalog : Catalog) (root : Entity) (r : Request) : Prop where
  filters : ∀ f ∈ r.required ++ r.optional, f.AsksMembership catalog root
  labels : ∀ f ∈ r.required ++ r.optional, ∀ g ∈ r.required ++ r.optional, ∀ j ∈ f.joins catalog root,
    ∀ k ∈ g.joins catalog root, j.join.label = k.join.label → j = k

/-- Two filters share no to-many join. -/
def Filter.Apart (catalog : Catalog) (root : Entity) (f g : Filter) : Prop :=
  ∀ j ∈ f.joins catalog root, j ∈ g.joins catalog root → j.join.toMany = false

instance (catalog : Catalog) (root : Entity) : DecidableRel (Filter.Apart catalog root) := fun f g =>
  inferInstanceAs (Decidable (∀ j ∈ f.joins catalog root, j ∈ g.joins catalog root → j.join.toMany = false))

/-- The required filters share no to-many join with each other nor with an optional one. -/
structure Request.Apart (catalog : Catalog) (root : Entity) (r : Request) : Prop where
  required : r.required.Pairwise (Filter.Apart catalog root)
  optional : ∀ f ∈ r.required, ∀ g ∈ r.optional, f.Apart catalog root g

/-- A root row has in every required collection all of the values listed for it, and in some optional collection one of
the values listed, if any are. -/
def Request.MetBy (d : Dialect) (db : Store) (catalog : Catalog) (root : Entity) (r : Request) (row : Row) : Prop :=
  (∀ f ∈ r.required, ∀ v ∈ f.values catalog root, f.HeldBy catalog root d db row v) ∧
    (r.optional = [] ∨ ∃ f ∈ r.optional, ∃ v ∈ f.values catalog root, f.HeldBy catalog root d db row v)

instance (d : Dialect) (db : Store) (catalog : Catalog) (root : Entity) (r : Request) (row : Row) :
    Decidable (r.MetBy d db catalog root row) :=
  inferInstanceAs (Decidable ((∀ f ∈ r.required, ∀ v ∈ f.values catalog root, f.HeldBy catalog root d db row v) ∧
    (r.optional = [] ∨ ∃ f ∈ r.optional, ∃ v ∈ f.values catalog root, f.HeldBy catalog root d db row v)))

namespace Request

def membershipScope (catalog : Catalog) (root : Entity) (r : Request) : Scope :=
  (Scope.new catalog root dataLabel).addPaths ((r.required ++ r.optional).map fun f => membershipPath f.path)

theorem base_membershipScope (catalog : Catalog) (root : Entity) (r : Request) :
    (r.membershipScope catalog root).base = Scope.new catalog root dataLabel := Scope.base_addPaths _ _

theorem root_membershipScope (catalog : Catalog) (root : Entity) (r : Request) :
    (r.membershipScope catalog root).root = root := congrArg Scope.root (r.base_membershipScope catalog root)

theorem label_membershipScope (catalog : Catalog) (root : Entity) (r : Request) :
    (r.membershipScope catalog root).label = dataLabel := congrArg Scope.label (r.base_membershipScope catalog root)

def membershipSelection (catalog : Catalog) (root : Entity) (r : Request) : Selection :=
  ⟨root, dataLabel, (r.membershipScope catalog root).joinList,
    (r.required.map fun f => (f.predicate catalog root).expr) ++
      (Expr.disjunction (r.optional.map fun f => (f.predicate catalog root).expr)).toList,
    r.required.flatMap fun f => (f.predicate catalog root).countTest.toList⟩

theorem AsksMemberships.restrict_ok {catalog : Catalog} {root : Entity} {r : Request}
    (h : r.AsksMemberships catalog root) :
    ∃ p, (restrict (Scope.new catalog root dataLabel) r none []).2 = .ok p ∧ p.projection = none ∧
      p.selection = r.membershipSelection catalog root := by
  have hrows : ∀ {fs : List Filter}, ∀ p ∈ fs.map (Filter.predicate catalog root), p.level = .row := by
    intro fs p hp
    obtain ⟨f, -, rfl⟩ := List.mem_map.1 hp
    rfl
  have hrequired : ∀ f ∈ r.required, f.AsksMembership catalog root := fun f hf =>
    h.filters f (List.mem_append_left _ hf)
  have hoptional : ∀ f ∈ r.optional, f.AsksMembership catalog root := fun f hf =>
    h.filters f (List.mem_append_right _ hf)
  obtain ⟨hscope, hmust⟩ := compileAll_memberships (s := Scope.new catalog root dataLabel) [] hrequired rfl rfl
  have hgrows := grows_compileAll (Scope.new catalog root dataLabel) [] r.required
  -- the optional filters start from the scope that the required ones left
  obtain ⟨hscope', hmay⟩ := compileAll_memberships (s := (compileAll (Scope.new catalog root dataLabel) []
    r.required).scope) (compileAll (Scope.new catalog root dataLabel) [] r.required).parameters hoptional
    hgrows.fields hgrows.base
  have hall : (compileAll (compileAll (Scope.new catalog root dataLabel) [] r.required).scope
      (compileAll (Scope.new catalog root dataLabel) [] r.required).parameters r.optional).scope =
        r.membershipScope catalog root := by
    rw [hscope', hscope, ← Scope.addPaths_append, ← List.map_append]
    rfl
  unfold restrict
  simp only [hmust, hmay]
  refine ⟨_, rfl, rfl, ?_⟩
  unfold Prepared.selection membershipSelection
  simp only [hall, Restriction.conditions_route, Restriction.having_route, Restriction.addOptional_row hrows,
    Restriction.foldl_addPredicate_row hrows, Restriction.ofConditions, List.nil_append, List.map_map,
    List.flatMap_map, Function.comp_def]
  rw [root_membershipScope, label_membershipScope]

theorem AsksMemberships.prepare_ok {catalog : Catalog} {root : Entity} {r : Request}
    (h : r.AsksMemberships catalog root) {recipe : Option Recipe} (hwhole : ∀ x ∈ recipe, x = Recipe.wholeEntity) :
    ∃ p, (prepare catalog root r recipe dataLabel).2 = .ok p ∧ p.projection = none ∧
      p.selection = r.membershipSelection catalog root := by
  rw [prepare_wholeEntity hwhole]
  exact h.restrict_ok

/-! ## The joins of all filters -/

section
variable {catalog : Catalog} {root : Entity} {r : Request} (h : r.AsksMemberships catalog root)

theorem laid_membershipScope : (r.membershipScope catalog root).Laid :=
  ⟨_, by rw [base_membershipScope]; rfl⟩

theorem exists_filter_of_mem {j : KeyedJoin} (hj : j ∈ (r.membershipScope catalog root).joins) :
    ∃ f ∈ r.required ++ r.optional, j ∈ f.joins catalog root := by
  rcases Scope.mem_addPaths hj with hj | ⟨path, hpath, hj⟩
  · cases hj
  · obtain ⟨f, hf, rfl⟩ := List.mem_map.1 hpath
    refine ⟨f, hf, ?_⟩
    rwa [Filter.joins_eq]

include h

theorem AsksMemberships.joins_subset {f : Filter} (hf : f ∈ r.required ++ r.optional) {j : KeyedJoin}
    (hj : j ∈ f.joins catalog root) : j ∈ (r.membershipScope catalog root).joins := by
  have hkey : j.key ∈ (r.membershipScope catalog root).joins.map KeyedJoin.key := by
    rw [Filter.joins_eq] at hj
    exact Scope.key_mem_addPaths (List.mem_map_of_mem hf) hj
  obtain ⟨k, hk, hkj⟩ := List.mem_map.1 hkey
  obtain ⟨g, hg, hkg⟩ := exists_filter_of_mem hk
  have hsame := h.labels g hg f hf k hkg j hj (by
    rw [(g.joins_made catalog root k hkg).label, (f.joins_made catalog root j hj).label, hkj])
  exact hsame ▸ hk

theorem AsksMemberships.nodup :
    (dataLabel :: (r.membershipScope catalog root).joinList.map Join.label).Nodup := by
  have hlabels := Scope.Laid.nodup_iff (@laid_membershipScope catalog root r)
  rw [label_membershipScope] at hlabels
  refine hlabels.2 fun j hj k hk htext => ?_
  obtain ⟨f, hf, hjf⟩ := exists_filter_of_mem hj
  obtain ⟨g, hg, hkg⟩ := exists_filter_of_mem hk
  rw [h.labels f hf g hg j hjf k hkg (by
    rw [(f.joins_made catalog root j hjf).label, (g.joins_made catalog root k hkg).label, joinLabel_inj.2 htext])]

theorem AsksMemberships.nodup_filter {f : Filter} (hf : f ∈ r.required ++ r.optional) :
    (dataLabel :: (f.joins catalog root).map fun j => j.join.label).Nodup := by
  obtain ⟨v, hreads⟩ := (h.filters f hf).compile_base.1
  have hlabels := h.nodup
  rw [← label_membershipScope catalog root r] at hlabels ⊢
  exact Scope.nodup_of_subset hlabels hreads.keys fun j hj => h.joins_subset hf hj

end

end Request

/-! ## The rows that pass -/

def Filter.ShownIn (catalog : Catalog) (root : Entity) (f : Filter) (d : Dialect) (w : Tuple) (v : Value) : Prop :=
  d.equal (w.cell (f.column catalog root)) (some v) = true

theorem Filter.AsksMembership.holds_iff {catalog : Catalog} {root : Entity} {f : Filter}
    (h : f.AsksMembership catalog root) (hd : d.Exact) (w : Tuple) :
    isTrue ((f.predicate catalog root).expr.eval d db [w]) = true ↔
      ∃ v ∈ f.values catalog root, f.ShownIn catalog root d w v := by
  obtain ⟨v, hreads⟩ := h.compile_base.1
  exact isTrue_listPredicate hd hreads.holds w

namespace Request

def Passes (catalog : Catalog) (root : Entity) (r : Request) (d : Dialect) (w : Tuple) : Prop :=
  (∀ f ∈ r.required, ∃ v ∈ f.values catalog root, f.ShownIn catalog root d w v) ∧
    (r.optional = [] ∨ ∃ f ∈ r.optional, ∃ v ∈ f.values catalog root, f.ShownIn catalog root d w v)

section
variable {catalog : Catalog} {root : Entity} {r : Request} (h : r.AsksMemberships catalog root) (hd : d.Exact)
include h hd

theorem AsksMemberships.mem_kept {row : Row} {w : Tuple} : w ∈ (r.membershipSelection catalog root).kept d db row ↔
    w ∈ (r.membershipSelection catalog root).span d db row ∧ r.Passes catalog root d w := by
  have hrequired : holdsAll d db (r.required.map fun f => (f.predicate catalog root).expr) [w] = true ↔
      ∀ f ∈ r.required, ∃ v ∈ f.values catalog root, f.ShownIn catalog root d w v := by
    unfold holdsAll
    rw [List.all_map, List.all_eq_true]
    exact forall₂_congr fun f hf => (h.filters f (List.mem_append_left _ hf)).holds_iff hd w
  have hoptional : holdsAll d db (Expr.disjunction (r.optional.map fun f => (f.predicate catalog root).expr)).toList
      [w] = true ↔
        r.optional = [] ∨ ∃ f ∈ r.optional, ∃ v ∈ f.values catalog root, f.ShownIn catalog root d w v := by
    simp only [holdsAll_disjunction, List.map_eq_nil_iff, List.mem_map, exists_exists_and_eq_and]
    exact or_congr_right (exists_congr fun f => and_congr_right fun hf =>
      (h.filters f (List.mem_append_right _ hf)).holds_iff hd w)
  unfold Selection.kept
  rw [List.mem_filter]
  refine and_congr_right fun _ => ?_
  show holdsAll d db (_ ++ _) [w] = true ↔ _
  rw [holdsAll, List.all_append, Bool.and_eq_true]
  exact and_congr hrequired hoptional

/-- **A root row is selected just if joined rows of it pass and show every required value between them.** -/
theorem AsksMemberships.selects_iff {row : Row} : (r.membershipSelection catalog root).selects d db row = true ↔
    (r.membershipSelection catalog root).kept d db row ≠ [] ∧ ∀ f ∈ r.required, ∀ v ∈ f.values catalog root,
      ∃ w ∈ (r.membershipSelection catalog root).kept d db row, f.ShownIn catalog root d w v := by
  rw [Selection.selects_iff]
  refine and_congr_right fun hne => ?_
  show holdsAll d db (r.required.flatMap _) _ = true ↔ _
  rw [holdsAll, List.all_flatMap, List.all_eq_true]
  refine forall₂_congr fun f hf => ?_
  obtain ⟨v, hreads⟩ := (h.filters f (List.mem_append_left _ hf)).compile_base.1
  exact holdsAll_countTest hd hreads.holds hreads.length hne fun w hw => ((h.mem_kept hd).1 hw).2.1 f hf

end

/-! ## What rows show and what is held -/

section
variable {catalog : Catalog} {root : Entity} {r : Request} (h : r.AsksMemberships catalog root)
include h

/-- **What a joined row shows of a root row is held for it.** -/
theorem AsksMemberships.held_of_shown {row : Row} {w : Tuple}
    (hw : w ∈ (r.membershipSelection catalog root).span d db row) {f : Filter} (hf : f ∈ r.required ++ r.optional)
    {v : Value} (hv : f.ShownIn catalog root d w v) : f.HeldBy catalog root d db row v := by
  obtain ⟨t, hreads⟩ := (h.filters f hf).compile_base.1
  have horder := (@laid_membershipScope catalog root r).ordered.inOrder
  rw [label_membershipScope] at horder
  obtain ⟨hroot, hfits⟩ := Tuple.fits_of_mem_span horder h.nodup hw
  unfold Filter.ShownIn at hv
  rw [Tuple.cell_eq, hreads.column] at hv
  rcases hreads.shows.sound d db w.rowOf fun j hj => hfits _ (List.mem_map_of_mem (h.joins_subset hf hj)) with
    hnone | hheld
  · rw [hnone] at hv
    cases hv
  · rw [show (Scope.new catalog root dataLabel).label = dataLabel from rfl, hroot] at hheld
    exact ⟨_, hheld, hv⟩

theorem AsksMemberships.exists_choice {f : Filter} (hf : f ∈ r.required ++ r.optional) {row : Row} {v : Value}
    (hheld : f.HeldBy catalog root d db row v) :
    ∃ φ : String → Row, φ dataLabel = row ∧ (∀ j ∈ f.joins catalog root, j.join.Fits d db φ) ∧
      d.equal (φ (f.column catalog root).source (f.column catalog root).name) (some v) = true := by
  obtain ⟨t, hreads⟩ := (h.filters f hf).compile_base.1
  obtain ⟨c, hc, hequal⟩ := hheld
  obtain ⟨φ, hrow, hfits, hshown⟩ := hreads.shows.complete (h.nodup_filter hf) d db row c hc
  refine ⟨φ, hrow, hfits, ?_⟩
  rw [hreads.column, hshown]
  exact hequal

theorem AsksMemberships.join_eq {f g : Filter} (hf : f ∈ r.required ++ r.optional) (hg : g ∈ r.required ++ r.optional) :
    ∀ j ∈ (f.joins catalog root).map KeyedJoin.join, ∀ k ∈ (g.joins catalog root).map KeyedJoin.join,
      j.label = k.label → j = k := by
  intro j hj k hk hlabel
  obtain ⟨i, hi, rfl⟩ := List.mem_map.1 hj
  obtain ⟨l, hl, rfl⟩ := List.mem_map.1 hk
  rw [h.labels f hf g hg i hi l hl hlabel]

theorem AsksMemberships.label_ne {f : Filter} (hf : f ∈ r.required ++ r.optional) :
    ∀ j ∈ (f.joins catalog root).map KeyedJoin.join, j.label ≠ dataLabel := by
  intro j hj hlabel
  obtain ⟨i, hi, rfl⟩ := List.mem_map.1 hj
  exact (List.nodup_cons.1 (h.nodup_filter hf)).1 (List.mem_map.2 ⟨i, hi, hlabel⟩)

/-- The joins that filters share are along identities, if they share no to-many join. -/
theorem AsksMemberships.keyed (hdb : ∀ e ∈ catalog.entities, db.Identifies d e) {f g : Filter}
    (hf : f ∈ r.required ++ r.optional) (hg : g ∈ r.required ++ r.optional) (hfg : f.Apart catalog root g) :
    ∀ j ∈ (f.joins catalog root).map KeyedJoin.join, j ∈ (g.joins catalog root).map KeyedJoin.join →
      db.Keyed d j.table j.column := by
  intro j hj hjg
  obtain ⟨i, hi, rfl⟩ := List.mem_map.1 hj
  obtain ⟨l, hl, hjoin⟩ := List.mem_map.1 hjg
  have hil := h.labels f hf g hg i hi l hl (by rw [hjoin])
  obtain ⟨e, he, htable, hcolumn⟩ := (f.joins_made catalog root i hi).toOne (hfg i hi (hil ▸ hl))
  rw [htable, hcolumn]
  exact hdb e he

def labelsOfFilter (catalog : Catalog) (root : Entity) (f : Filter) : List String :=
  [dataLabel] ++ ((f.joins catalog root).map KeyedJoin.join).map Join.label

/-- **Filters that share no to-many join leave each other's choices alone**: what a root row holds for all of them shows
in one choice. -/
theorem AsksMemberships.exists_joint_choice (hdb : ∀ e ∈ catalog.entities, db.Identifies d e) {row : Row}
    {fs : List Filter} (hfs : fs ⊆ r.required ++ r.optional) (hapart : fs.Pairwise (Filter.Apart catalog root))
    (chosen : Filter → Value) (hheld : ∀ f ∈ fs, f.HeldBy catalog root d db row (chosen f)) :
    ∃ ψ : String → Row, ψ dataLabel = row ∧ (∀ f ∈ fs, ∀ j ∈ f.joins catalog root, j.join.Fits d db ψ) ∧ ∀ f ∈ fs,
      d.equal (ψ (f.column catalog root).source (f.column catalog root).name) (some (chosen f)) = true := by
  have hchoice : ∀ f : Filter, ∃ φ : String → Row, f ∈ fs → φ dataLabel = row ∧
      (∀ j ∈ f.joins catalog root, j.join.Fits d db φ) ∧
      d.equal (φ (f.column catalog root).source (f.column catalog root).name) (some (chosen f)) = true := by
    intro f
    by_cases hf : f ∈ fs
    · obtain ⟨φ, hφ⟩ := h.exists_choice (hfs hf) (hheld f hf)
      exact ⟨φ, fun _ => hφ⟩
    · exact ⟨fun _ => row, fun hmem => absurd hmem hf⟩
  choose φ hφ using hchoice
  have hchoices : Choices d db dataLabel row (fun f : Filter => (f.joins catalog root).map KeyedJoin.join) φ fs :=
    { inOrder := fun f _ => f.joins_inOrder catalog root
      same := fun f hf g hg => h.join_eq (hfs hf) (hfs hg)
      label_ne := fun f hf => h.label_ne (hfs hf)
      row := fun f hf => (hφ f hf).1
      fits := fun f hf => List.forall_mem_map.2 (hφ f hf).2.1 }
  have hkeyed : fs.Pairwise fun f g => ∀ j ∈ (f.joins catalog root).map KeyedJoin.join,
      j ∈ (g.joins catalog root).map KeyedJoin.join → db.Keyed d j.table j.column :=
    hapart.imp_of_mem fun hf hg hfg => h.keyed hdb (hfs hf) (hfs hg) hfg
  obtain ⟨ψ, hψrow, hψ⟩ := hchoices.merge hkeyed
  -- so the joint choice fits each filter's joins as its own did, owners included
  have hagree : ∀ f ∈ fs, ∀ l ∈ labelsOfFilter catalog root f, ψ l = φ f l := by
    intro f hf l hl
    rcases List.mem_append.1 hl with hl | hl
    · rw [List.mem_singleton.1 hl, hψrow, (hφ f hf).1]
    · obtain ⟨j, hj, rfl⟩ := List.mem_map.1 hl
      exact hψ f hf j hj
  refine ⟨ψ, hψrow, fun f hf j hj => ?_, fun f hf => ?_⟩
  · have hjoin := List.mem_map_of_mem (f := KeyedJoin.join) hj
    exact ((hφ f hf).2.1 j hj).congr (hψ f hf _ hjoin) (hagree f hf _ ((f.joins_inOrder catalog root).owner_mem hjoin))
  · obtain ⟨t, hreads⟩ := (h.filters f (hfs hf)).compile_base.1
    obtain ⟨j, hj, hlabel⟩ := hreads.shows.made
    rw [← hlabel, hψ f hf _ (List.mem_map_of_mem hj), hlabel]
    exact (hφ f hf).2.2

/-- **What a root row holds for filters that share no to-many join shows in one joined row.** -/
theorem AsksMemberships.exists_shown (hdb : ∀ e ∈ catalog.entities, db.Identifies d e) {row : Row} {fs : List Filter}
    (hfs : fs ⊆ r.required ++ r.optional) (hapart : fs.Pairwise (Filter.Apart catalog root)) (chosen : Filter → Value)
    (hheld : ∀ f ∈ fs, f.HeldBy catalog root d db row (chosen f)) :
    ∃ w ∈ (r.membershipSelection catalog root).span d db row, ∀ f ∈ fs, f.ShownIn catalog root d w (chosen f) := by
  obtain ⟨ψ, hrow, hfits, hshown⟩ := h.exists_joint_choice hdb hfs hapart chosen hheld
  have horder := (@laid_membershipScope catalog root r).ordered.inOrder
  rw [label_membershipScope] at horder
  have hnodup := h.nodup
  -- the rows chosen for the labels of these filters, and any rows behind the others
  obtain ⟨w, hw, hchosen⟩ := Tuple.exists_mem_joined (w := [(dataLabel, row)]) (d := d) (φ := ψ)
    (S := fun l => ∃ f ∈ fs, l ∈ labelsOfFilter catalog root f) horder (fun l hl => hl) hnodup
    (by
      rintro j hj ⟨f, hf, hl⟩
      obtain ⟨k, hk, rfl⟩ := List.mem_map.1 hj
      obtain ⟨i, hi, hlabel⟩ : ∃ i ∈ f.joins catalog root, i.join.label = k.join.label := by
        rcases List.mem_append.1 hl with hl | hl
        · exact absurd (List.mem_singleton.1 hl ▸ List.mem_map_of_mem hj) (List.nodup_cons.1 hnodup).1
        · simpa using hl
      obtain ⟨g, hg, hkg⟩ := exists_filter_of_mem hk
      obtain rfl := h.labels f (hfs hf) g hg i hi k hkg hlabel
      exact ⟨⟨f, hf, (f.joins_inOrder catalog root).owner_mem (List.mem_map_of_mem hi)⟩, hfits f hf i hi⟩)
    (by
      intro l hl _
      rw [List.mem_singleton.1 hl, hrow]
      simp [Tuple.rowOf])
  refine ⟨w, hw, fun f hf => ?_⟩
  obtain ⟨t, hreads⟩ := (h.filters f (hfs hf)).compile_base.1
  obtain ⟨j, hj, hlabel⟩ := hreads.shows.made
  have hsource : (f.column catalog root).source ∈ labelsOfFilter catalog root f :=
    List.mem_append_right _ (hlabel ▸ List.mem_map_of_mem (List.mem_map_of_mem hj))
  have hthere : (f.column catalog root).source ∈ (r.membershipScope catalog root).joinList.map Join.label :=
    hlabel ▸ List.mem_map_of_mem (List.mem_map_of_mem (h.joins_subset (hfs hf) hj))
  unfold Filter.ShownIn
  rw [Tuple.cell_eq, hchosen _ (List.mem_append_right _ hthere) ⟨f, hf, hsource⟩]
  exact hshown f hf

/-! ## What is drawn -/

/-- **Nothing is selected that does not hold what is asked.** -/
theorem AsksMemberships.metBy_of_selects (hd : d.Exact) {row : Row}
    (hsel : (r.membershipSelection catalog root).selects d db row = true) : r.MetBy d db catalog root row := by
  obtain ⟨hne, hvalues⟩ := (h.selects_iff hd).1 hsel
  refine ⟨fun f hf v hv => ?_, ?_⟩
  · obtain ⟨w, hw, hshown⟩ := hvalues f hf v hv
    exact h.held_of_shown ((h.mem_kept hd).1 hw).1 (List.mem_append_left _ hf) hshown
  · obtain ⟨w, hw⟩ := List.exists_mem_of_ne_nil _ hne
    obtain ⟨hspan, -, hoptional⟩ := (h.mem_kept hd).1 hw
    refine hoptional.imp_right ?_
    rintro ⟨f, hf, v, hv, hshown⟩
    exact ⟨f, hf, v, hv, h.held_of_shown hspan (List.mem_append_right _ hf) hshown⟩

theorem AsksMemberships.exists_passing (hdb : ∀ e ∈ catalog.entities, db.Identifies d e) (hapart : r.Apart catalog root)
    {row : Row} (hmet : r.MetBy d db catalog root row) (chosen : Filter → Value)
    (hchosen : ∀ f ∈ r.required ++ r.optional, (∃ v ∈ f.values catalog root, f.HeldBy catalog root d db row v) →
      chosen f ∈ f.values catalog root ∧ f.HeldBy catalog root d db row (chosen f)) :
    ∃ w ∈ (r.membershipSelection catalog root).span d db row, r.Passes catalog root d w ∧
      ∀ f ∈ r.required, f.ShownIn catalog root d w (chosen f) := by
  have hrequired : ∀ f ∈ r.required,
      chosen f ∈ f.values catalog root ∧ f.HeldBy catalog root d db row (chosen f) := by
    intro f hf
    obtain ⟨t, hreads⟩ := (h.filters f (List.mem_append_left _ hf)).compile_base.1
    obtain ⟨v, hv⟩ := List.exists_mem_of_ne_nil _ hreads.ne_nil
    exact hchosen f (List.mem_append_left _ hf) ⟨v, hv, hmet.1 f hf v hv⟩
  rcases hmet.2 with hnone | ⟨g, hg, hsome⟩
  · obtain ⟨w, hw, hshown⟩ := h.exists_shown hdb (List.subset_append_left _ _) hapart.required
      chosen fun f hf => (hrequired f hf).2
    exact ⟨w, hw, ⟨fun f hf => ⟨_, (hrequired f hf).1, hshown f hf⟩, .inl hnone⟩, hshown⟩
  -- the optional filter that holds something must pass in the same joined row as the required ones
  · have hfirst := hchosen g (List.mem_append_right _ hg) hsome
    have hpairwise : (g :: r.required).Pairwise (Filter.Apart catalog root) :=
      List.pairwise_cons.2 ⟨fun f hf j hj hjf => hapart.optional f hf g hg j hjf hj, hapart.required⟩
    obtain ⟨w, hw, hshown⟩ := h.exists_shown hdb
      (List.cons_subset.2 ⟨List.mem_append_right _ hg, List.subset_append_left _ _⟩) hpairwise chosen (by
        intro f hf
        rcases List.mem_cons.1 hf with rfl | hf
        · exact hfirst.2
        · exact (hrequired f hf).2)
    have hall : ∀ f ∈ r.required, f.ShownIn catalog root d w (chosen f) := fun f hf =>
      hshown f (List.mem_cons_of_mem g hf)
    exact ⟨w, hw, ⟨fun f hf => ⟨_, (hrequired f hf).1, hall f hf⟩,
      .inr ⟨g, hg, _, hfirst.1, hshown g List.mem_cons_self⟩⟩, hall⟩

/-- **Whatever holds what is asked is selected**, if the filters are apart. -/
theorem AsksMemberships.selects_of_metBy (hd : d.Exact) (hdb : ∀ e ∈ catalog.entities, db.Identifies d e)
    (hapart : r.Apart catalog root) {row : Row} (hmet : r.MetBy d db catalog root row) :
    (r.membershipSelection catalog root).selects d db row = true := by
  have hchoice : ∀ f : Filter, ∃ v, (∃ u ∈ f.values catalog root, f.HeldBy catalog root d db row u) →
      v ∈ f.values catalog root ∧ f.HeldBy catalog root d db row v := by
    intro f
    by_cases hf : ∃ u ∈ f.values catalog root, f.HeldBy catalog root d db row u
    · obtain ⟨u, hu⟩ := hf
      exact ⟨u, fun _ => hu⟩
    · exact ⟨.boolean true, fun hu => absurd hu hf⟩
  choose chosen hchosen using hchoice
  rw [h.selects_iff hd]
  refine ⟨?_, fun f hf v hv => ?_⟩
  · obtain ⟨w, hw, hpasses, -⟩ := h.exists_passing hdb hapart hmet chosen fun f _ => hchosen f
    exact List.ne_nil_of_mem ((h.mem_kept hd).2 ⟨hw, hpasses⟩)
  · classical
    -- any choice for the other filters goes with this value
    obtain ⟨w, hw, hpasses, hshown⟩ := h.exists_passing hdb hapart hmet (Function.update chosen f v)
      fun g hg hsome => by
        by_cases hgf : g = f
        · subst hgf
          rw [Function.update_self]
          exact ⟨hv, hmet.1 g hf v hv⟩
        · rw [Function.update_of_ne hgf]
          exact hchosen g hsome
    have hf' := hshown f hf
    rw [Function.update_self] at hf'
    exact ⟨w, (h.mem_kept hd).2 ⟨hw, hpasses⟩, hf'⟩

end

end Request

/-- **The rows of a request for memberships** are drawn of root rows only that hold what is asked, and of all of these
where no two criteria, one of them required, share a to-many join. -/
theorem memberships_drawn {catalog : Catalog} {root : Entity} (caps : Capabilities) (wantCount : Bool)
    {recipe : Option Recipe} (hwhole : ∀ x ∈ recipe, x = Recipe.wholeEntity) {r : Request} (hordering : r.ordering = [])
    (h : r.AsksMemberships catalog root) :
    ∃ plan, (PagePlan.build catalog root caps r wantCount recipe false).2 = .ok plan ∧
      ∀ (d : Dialect) (db : Store), d.Exact → db.Identifies d root → (∀ e ∈ catalog.entities, db.Identifies d e) →
        ∀ row ∈ db.rows root.table,
          (plan.data.statement.draws d db root.identityColumn (row root.identityColumn) = true →
            r.MetBy d db catalog root row) ∧
          (r.Apart catalog root → r.MetBy d db catalog root row →
            plan.data.statement.draws d db root.identityColumn (row root.identityColumn) = true) := by
  obtain ⟨p, hprepared, hprojection, hselection⟩ := h.prepare_ok hwhole
  obtain ⟨plan, hplan⟩ := exists_build hprepared hordering caps wantCount
  refine ⟨plan, hplan, fun d db hd hroot hdb row hrow => ?_⟩
  rw [draws_of_unordered hordering hprepared hprojection hplan hroot hrow, hselection]
  exact ⟨h.metBy_of_selects hd, fun hapart => h.selects_of_metBy hd hdb hapart⟩

/-! ## A small store -/

namespace Sample

def listed (path : String) (ls : List Literal) : Filter := ⟨path, .alternatives (ls.map .value)⟩

def buyers : Request :=
  { Request.all with
    required := [listed "orders.items" [.text "pen", .text "ink"]]
    optional := [listed "orders" [.integer 10, .integer 12]] }

def penBuyers : Request :=
  { Request.all with
    required := [listed "orders.items" [.text "pen", .text "ink"]]
    optional := [listed "orders.items" [.text "pen"]] }

theorem asksMembership_listed {path : String} {ls : List Literal} (hunmarked : hasChar '@' path = false)
    (hcollection : (catalog.tableAlong? person (splitText '.' path)).isSome = true)
    (hls : ls ≠ [] ∧ ls.length < 2 ^ 64)
    (hcompiles :
      (compile (Scope.new catalog person dataLabel) path (listed path ls).criterion []).outcome.isOk = true) :
    (listed path ls).AsksMembership catalog person where
  unmarked := hunmarked
  collection := hcollection
  literals := ⟨ls, hls.1, hls.2, rfl⟩
  compiles := exists_ok_of_isOk hcompiles

theorem items_asked : (listed "orders.items" [.text "pen", .text "ink"]).AsksMembership catalog person :=
  asksMembership_listed (by decide +kernel) (by decide +kernel) (by decide) (by decide +kernel)

theorem buyers_ask : buyers.AsksMemberships catalog person where
  filters := by
    have horders : (listed "orders" [.integer 10, .integer 12]).AsksMembership catalog person :=
      asksMembership_listed (by decide +kernel) (by decide +kernel) (by decide) (by decide +kernel)
    exact List.forall_mem_cons.2 ⟨items_asked, List.forall_mem_singleton.2 horders⟩
  labels := by decide +kernel

theorem penBuyers_ask : penBuyers.AsksMemberships catalog person where
  filters := by
    have hpen : (listed "orders.items" [.text "pen"]).AsksMembership catalog person :=
      asksMembership_listed (by decide +kernel) (by decide +kernel) (by decide) (by decide +kernel)
    exact List.forall_mem_cons.2 ⟨items_asked, List.forall_mem_singleton.2 hpen⟩
  labels := by decide +kernel

end Sample

open Sample in
/-- Of the persons those are drawn who have both items among their orders, and one of two orders. -/
theorem buyers_drawn :
    ∃ plan, (PagePlan.build catalog person Backend.postgres.capabilities buyers true none false).2 = .ok plan ∧
      ∀ row ∈ store.rows "persons", plan.data.statement.draws .plain store "id" (row "id") = true ↔
        buyers.MetBy .plain store catalog person row := by
  have hwhole : ∀ x ∈ (none : Option Recipe), x = Recipe.wholeEntity := fun x hx => by cases hx
  obtain ⟨plan, hplan, hdraws⟩ := memberships_drawn Backend.postgres.capabilities true hwhole rfl buyers_ask
  have hapart : buyers.Apart catalog person := ⟨by decide +kernel, by decide +kernel⟩
  refine ⟨plan, hplan, fun row hrow => ?_⟩
  obtain ⟨hmet, hdrawn⟩ := hdraws .plain store exact_plain (by decide +kernel) (by decide +kernel) row hrow
  exact ⟨hmet, hdrawn hapart⟩

open Sample in
/-- Ada bought both items, so a pen too; but the rows that passed the list with the pen alone do not show the ink, and
she is not drawn. -/
theorem pen_buyer_not_drawn :
    Dialect.plain.Exact ∧ (∀ e ∈ person :: catalog.entities, store.Identifies .plain e) ∧
    penBuyers.AsksMemberships catalog person ∧
    ∃ plan, (PagePlan.build catalog person Backend.postgres.capabilities penBuyers true none false).2 = .ok plan ∧
      ∃ row ∈ store.rows "persons", penBuyers.MetBy .plain store catalog person row ∧
        plan.data.statement.draws .plain store "id" (row "id") = false := by
  refine ⟨exact_plain, by decide +kernel, penBuyers_ask, exists_ok ?_⟩
  decide +kernel

end PageQuery
