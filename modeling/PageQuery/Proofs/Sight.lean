import PageQuery.Proofs.Meaning
/-!
# What an expression sees

An expression sees some labels and not the others: over joined rows that are alike under those labels it means the
same.  A steady expression also does not notice that rows are repeated: a condition of groups that asks for the number
of different values, the least or the greatest means the same after further joins have repeated every row.  A count, a
sum or an average would not; those are asked of the root row's own rows, in a subquery.
-/
namespace PageQuery

/-- Joined rows that show the same under some labels. -/
def Tuple.Alike (seen : String → Prop) (w v : Tuple) : Prop := ∀ l, seen l → w.lookup l = v.lookup l

namespace Tuple
variable {seen : String → Prop}

theorem Alike.refl (seen : String → Prop) (w : Tuple) : w.Alike seen w := fun _ _ => rfl

theorem cell_congr {w v : Tuple} (h : w.Alike seen v) {c : Column} (hc : seen c.source) : w.cell c = v.cell c := by
  unfold cell
  rw [h c.source hc]

theorem alike_append {w : Tuple} (hw : ∀ l, seen l → (w.lookup l).isSome = true) (v : Tuple) :
    w.Alike seen (w ++ v) := by
  intro l hl
  obtain ⟨r, hr⟩ := Option.isSome_iff_exists.1 (hw l hl)
  rw [List.lookup_append, hr]
  rfl

variable (d : Dialect) (db : Store)

theorem mem_extend {w v : Tuple} {j : Join} (h : v ∈ w.extend d db j) : ∃ r, v = w ++ [(j.label, r)] := by
  unfold extend at h
  split at h
  · exact ⟨nullRow, List.mem_singleton.1 h⟩
  · obtain ⟨r, -, rfl⟩ := List.mem_map.1 h
    exact ⟨r, rfl⟩

theorem mem_joined {js : List Join} : ∀ {w v : Tuple}, v ∈ joined d db js w →
    ∃ u : Tuple, v = w ++ u ∧ u.map Prod.fst = js.map Join.label := by
  induction js with
  | nil =>
    intro w v h
    exact ⟨[], by rw [List.mem_singleton.1 h, List.append_nil], rfl⟩
  | cons j js ih =>
    intro w v h
    obtain ⟨x, hx, hv⟩ := List.mem_flatMap.1 h
    obtain ⟨r, rfl⟩ := mem_extend d db hx
    obtain ⟨u, rfl, hu⟩ := ih hv
    refine ⟨(j.label, r) :: u, by rw [List.append_assoc]; rfl, ?_⟩
    rw [List.map_cons, List.map_cons, hu]

end Tuple

def labelsOf (label : String) (joins : List Join) (l : String) : Prop := l ∈ label :: joins.map Join.label

theorem shows_of_mem_tuples {d : Dialect} {db : Store} {table label : String} {joins : List Join} {w : Tuple}
    (h : w ∈ db.tuples d table label joins) (l : String) (hl : labelsOf label joins l) :
    (w.lookup l).isSome = true := by
  obtain ⟨r, -, hw⟩ := List.mem_flatMap.1 h
  obtain ⟨u, rfl, hu⟩ := Tuple.mem_joined d db hw
  have hmem : l ∈ ([(label, r)] ++ u).map Prod.fst := by
    rw [List.map_append, hu]
    exact hl
  obtain ⟨p, hp, rfl⟩ := List.mem_map.1 hmem
  exact List.lookup_isSome_iff.2 ⟨p, hp, beq_self_eq_true _⟩

/-! ## Seeing -/

section
variable (d : Dialect) (db : Store)

/-- The expression sees no other labels: over lists of joined rows alike under them, row by row, it means the same. -/
def Expr.Sees (seen : String → Prop) (e : Expr) : Prop :=
  ∀ g g' : List Tuple, List.Forall₂ (Tuple.Alike seen) g g' → e.eval d db g = e.eval d db g'

/-- The expression sees no other labels, nor that rows are repeated. -/
def Expr.Steady (seen : String → Prop) (e : Expr) : Prop :=
  ∀ g g' : List Tuple, Spread (Tuple.Alike seen) g g' → e.eval d db g = e.eval d db g'

end

section
variable {d : Dialect} {db : Store} {seen : String → Prop}

theorem Expr.Steady.sees {e : Expr} (h : e.Steady d db seen) : e.Sees d db seen :=
  fun _ _ hg => h _ _ (Spread.of_forall₂ hg)

theorem Expr.Steady.col {source name : String} (h : seen source) : (Expr.col source name).Steady d db seen := by
  intro g g' hg
  have hhead : Tuple.Alike seen (g.headD []) (g'.headD []) := hg.headD (Tuple.Alike.refl seen [])
  simp only [Expr.col, Expr.eval]
  exact Tuple.cell_congr hhead h

theorem Expr.Sees.one {e : Expr} (h : e.Sees d db seen) {w v : Tuple} (hwv : w.Alike seen v) :
    e.eval d db [w] = e.eval d db [v] := h _ _ (.cons hwv .nil)

theorem holdsAll_sees {es : List Expr} (h : ∀ e ∈ es, e.Sees d db seen) {g g' : List Tuple}
    (hg : List.Forall₂ (Tuple.Alike seen) g g') : holdsAll d db es g = holdsAll d db es g' := by
  unfold holdsAll
  rw [Bool.eq_iff_iff, List.all_eq_true, List.all_eq_true]
  refine forall₂_congr fun e he => ?_
  rw [h e he g g' hg]

theorem holdsAll_steady {es : List Expr} (h : ∀ e ∈ es, e.Steady d db seen) {g g' : List Tuple}
    (hg : Spread (Tuple.Alike seen) g g') : holdsAll d db es g = holdsAll d db es g' := by
  unfold holdsAll
  rw [Bool.eq_iff_iff, List.all_eq_true, List.all_eq_true]
  refine forall₂_congr fun e he => ?_
  rw [h e he g g' hg]

/-! ## Functions of groups -/

theorem least_spread (d : Dialect) {vs ws : List Value} (h : Spread Eq vs ws) : d.least vs = d.least ws := by
  induction h with
  | nil => rfl
  | one hab _ ih => simp only [Dialect.least, ih, hab]
  | @more a b as bs hab _ ih =>
    subst hab
    have hself : d.least (a :: bs) = d.least bs := by
      -- what repeats the first value puts it before a least value that is not greater
      rw [← ih]
      simp only [Dialect.least, ← ih]
      cases d.least as with
      | none => simp
      | some w =>
        by_cases hlt : d.rank w < d.rank a
        · simp [hlt]
        · simp [hlt]
    rw [hself, ih]

theorem greatest_spread (d : Dialect) {vs ws : List Value} (h : Spread Eq vs ws) :
    d.greatest vs = d.greatest ws := by
  induction h with
  | nil => rfl
  | one hab _ ih => simp only [Dialect.greatest, ih, hab]
  | @more a b as bs hab _ ih =>
    subst hab
    have hself : d.greatest (a :: bs) = d.greatest bs := by
      rw [← ih]
      simp only [Dialect.greatest, ← ih]
      cases d.greatest as with
      | none => simp
      | some w =>
        by_cases hlt : d.rank a < d.rank w
        · simp [hlt]
        · simp [hlt]
    rw [hself, ih]

/-- The functions of groups that do not notice a repeated row. -/
def Function.isSteady : Function → Bool
  | .countDistinct | .min | .max => true
  | _ => false

theorem aggregate_spread (d : Dialect) {f : Function} (hf : f.isSteady = true) {cs cs' : List Cell}
    (h : Spread Eq cs cs') : d.aggregate f cs = d.aggregate f cs' := by
  have hvs : Spread Eq (cs.filterMap id) (cs'.filterMap id) := h.filterMap_id
  unfold Dialect.aggregate
  cases f with
  | countDistinct =>
    have hranks : Spread Eq ((cs.filterMap id).map d.rank) ((cs'.filterMap id).map d.rank) :=
      hvs.map fun _ _ hab => congrArg d.rank hab
    simp only [hranks.length_dedup]
  | min => exact least_spread d hvs
  | max => exact greatest_spread d hvs
  | lower | count | sum | avg => cases hf

/-! ## Subqueries -/

/-- Behind its own rows a subquery sees no other labels than the expressions in it. -/
theorem Subquery.eval_congr {item : Expr} {table label : String} {joins : List Join}
    {conditions groupBy having : List Expr}
    (hseen : ∀ e ∈ item :: (conditions ++ groupBy ++ having), e.Sees d db fun l => labelsOf label joins l ∨ seen l)
    {outer outer' : Tuple} (h : outer.Alike seen outer') :
    (Subquery.select item table label joins conditions groupBy having).eval d db outer =
      (Subquery.select item table label joins conditions groupBy having).eval d db outer' := by
  -- own rows first: the labels that they bear are theirs, and for the others both outer rows say the same
  have halike : ∀ w ∈ db.tuples d table label joins,
      (w ++ outer).Alike (fun l => labelsOf label joins l ∨ seen l) (w ++ outer') := by
    intro w hw l hl
    rw [List.lookup_append, List.lookup_append]
    cases hlookup : w.lookup l with
    | some r => rfl
    | none =>
      rcases hl with hown | hseen
      · have hshows := shows_of_mem_tuples hw l hown
        rw [hlookup] at hshows
        cases hshows
      · exact h l hseen
  have hgroup : ∀ g : List Tuple, (∀ w ∈ g, w ∈ db.tuples d table label joins) →
      List.Forall₂ (Tuple.Alike fun l => labelsOf label joins l ∨ seen l) (g.map (· ++ outer))
        (g.map (· ++ outer')) := by
    intro g hg
    induction g with
    | nil => exact .nil
    | cons w g ih =>
      exact .cons (halike w (hg w List.mem_cons_self)) (ih fun v hv => hg v (List.mem_cons_of_mem _ hv))
  have hconditions : ∀ e ∈ conditions, e.Sees d db fun l => labelsOf label joins l ∨ seen l :=
    fun e he => hseen e (by simp [he])
  have hgroupBy : ∀ e ∈ groupBy, e.Sees d db fun l => labelsOf label joins l ∨ seen l :=
    fun e he => hseen e (by simp [he])
  have hhaving : ∀ e ∈ having, e.Sees d db fun l => labelsOf label joins l ∨ seen l :=
    fun e he => hseen e (by simp [he])
  have hpick : pick (fun w => holdsAll d db conditions [w ++ outer]) groupBy.isEmpty
      (item.isAggregate || !having.isEmpty) (fun w => groupKey d db groupBy (w ++ outer))
      (fun g => holdsAll d db having (g.map (· ++ outer))) (db.tuples d table label joins) =
    pick (fun w => holdsAll d db conditions [w ++ outer']) groupBy.isEmpty
      (item.isAggregate || !having.isEmpty) (fun w => groupKey d db groupBy (w ++ outer'))
      (fun g => holdsAll d db having (g.map (· ++ outer'))) (db.tuples d table label joins) := by
    refine pick_congr (fun w hw => ?_) (fun w hw => ?_) (fun g hg => ?_)
    · exact holdsAll_sees hconditions (.cons (halike w hw) .nil)
    · refine List.map_congr_left fun e he => ?_
      rw [(hgroupBy e he).one (halike w hw)]
    · exact holdsAll_sees hhaving (hgroup g hg)
  rw [Subquery.eval_select, Subquery.eval_select, hpick]
  refine List.map_congr_left fun g hg => ?_
  have hrows : ∀ w ∈ g, w ∈ db.tuples d table label joins := fun w hw =>
    (List.mem_filter.1 (mem_of_mem_parts (mem_pick.1 hg).1 hw)).1
  exact hseen item List.mem_cons_self _ _ (hgroup g hrows)

end
end PageQuery
