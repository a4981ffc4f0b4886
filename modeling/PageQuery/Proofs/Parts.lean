import Mathlib.Data.Finset.Card
import Mathlib.Data.List.Dedup
/-!
# Lists in parts

A query looks at its rows in parts: each row alone, all rows at once, or the rows of one key together.  `pick` keeps
rows, parts what is left, and keeps parts.  Two lists of rows are compared by `Spread`: the second repeats what the
first says, each row at least once and in the same order.
-/
namespace PageQuery

theorem exists_mem_of_forall₂ {α β : Type} {R : α → β → Prop} {as : List α} {bs : List β} (h : List.Forall₂ R as bs) :
    ∀ a ∈ as, ∃ b ∈ bs, R a b := by
  induction h with
  | nil => exact fun _ ha => absurd ha List.not_mem_nil
  | @cons a b as bs hab _ ih =>
    intro x hx
    rcases List.mem_cons.1 hx with rfl | hx
    · exact ⟨b, List.mem_cons_self, hab⟩
    · obtain ⟨y, hy, hxy⟩ := ih x hx
      exact ⟨y, List.mem_cons_of_mem b hy, hxy⟩

theorem mem_iff_of_forall₂ {α β : Type} {R : α → β → Prop} (hone : ∀ {a b c}, R a b → R a c → b = c) {as : List α}
    {bs : List β} (h : List.Forall₂ R as bs) (b : β) : b ∈ bs ↔ ∃ a ∈ as, R a b := by
  induction h with
  | nil => simp
  | @cons a c as bs hac _ ih =>
    have hc : R a b ↔ b = c := ⟨fun hab => hone hab hac, fun hb => hb ▸ hac⟩
    rw [List.mem_cons, ih, List.exists_mem_cons_iff, hc]

/-- The parts of a list: with keys the rows of each key; without keys (`bare`) all at once for an aggregate, else each
row alone. -/
def parts {α κ : Type} [DecidableEq κ] (bare aggregated : Bool) (key : α → κ) (xs : List α) : List (List α) :=
  if bare then (if aggregated then [xs] else xs.map fun x => [x])
  else (xs.map key).dedup.map fun k => xs.filter fun x => decide (key x = k)

/-- The parts of the rows kept that are kept in turn. -/
def pick {α κ : Type} [DecidableEq κ] (keep : α → Bool) (bare aggregated : Bool) (key : α → κ)
    (holds : List α → Bool) (xs : List α) : List (List α) :=
  (parts bare aggregated key (xs.filter keep)).filter holds

section
variable {α β κ : Type} [DecidableEq κ]

theorem mem_parts_keys {aggregated : Bool} {key : α → κ} {xs g : List α} :
    g ∈ parts false aggregated key xs ↔ ∃ x ∈ xs, g = xs.filter fun y => decide (key y = key x) := by
  simp only [parts, Bool.false_eq_true, if_false, List.mem_map, List.mem_dedup]
  constructor
  · rintro ⟨k, ⟨x, hx, rfl⟩, rfl⟩
    exact ⟨x, hx, rfl⟩
  · rintro ⟨x, hx, rfl⟩
    exact ⟨key x, ⟨x, hx, rfl⟩, rfl⟩

theorem mem_parts_alone {key : α → κ} {xs g : List α} :
    g ∈ parts true false key xs ↔ ∃ x ∈ xs, g = [x] := by
  simp [parts, eq_comm]

theorem mem_pick {keep : α → Bool} {bare aggregated : Bool} {key : α → κ} {holds : List α → Bool} {xs g : List α} :
    g ∈ pick keep bare aggregated key holds xs ↔ g ∈ parts bare aggregated key (xs.filter keep) ∧ holds g = true := by
  simp [pick]

theorem mem_of_mem_parts {bare aggregated : Bool} {key : α → κ} {xs g : List α}
    (hg : g ∈ parts bare aggregated key xs) {x : α} (hx : x ∈ g) : x ∈ xs := by
  cases bare with
  | false =>
    obtain ⟨y, -, rfl⟩ := mem_parts_keys.1 hg
    exact (List.mem_filter.1 hx).1
  | true =>
    cases aggregated with
    | false =>
      obtain ⟨y, hy, rfl⟩ := mem_parts_alone.1 hg
      rw [List.mem_singleton.1 hx]
      exact hy
    | true =>
      simp only [parts, if_true, List.mem_singleton] at hg
      exact hg ▸ hx

theorem exists_mem_parts (bare aggregated : Bool) (key : α → κ) {xs : List α} {x : α} (hx : x ∈ xs) :
    ∃ g ∈ parts bare aggregated key xs, x ∈ g := by
  cases bare with
  | false => exact ⟨_, mem_parts_keys.2 ⟨x, hx, rfl⟩, List.mem_filter.2 ⟨hx, by simp⟩⟩
  | true =>
    cases aggregated with
    | false => exact ⟨_, mem_parts_alone.2 ⟨x, hx, rfl⟩, List.mem_cons_self⟩
    | true => exact ⟨xs, by simp [parts], hx⟩

theorem ne_nil_of_mem_pick {keep : α → Bool} {bare aggregated : Bool} {key : α → κ} {holds : List α → Bool}
    {xs g : List α} (h : bare = true → aggregated = false) (hg : g ∈ pick keep bare aggregated key holds xs) :
    g ≠ [] := by
  have hpart := (mem_pick.1 hg).1
  cases bare with
  | false =>
    obtain ⟨x, hx, rfl⟩ := mem_parts_keys.1 hpart
    exact List.ne_nil_of_mem (List.mem_filter.2 ⟨hx, by simp⟩)
  | true =>
    rw [h rfl] at hpart
    obtain ⟨x, -, rfl⟩ := mem_parts_alone.1 hpart
    exact List.cons_ne_nil x []

theorem eq_of_mem_pick {ι : Type} {ident : α → ι} {keep : α → Bool} {bare aggregated : Bool} {key : α → κ}
    {holds : List α → Bool} {xs g : List α} (h : bare = true → aggregated = false)
    (hkey : bare = false → ∀ x ∈ xs.filter keep, ∀ y ∈ xs.filter keep, key x = key y → ident x = ident y)
    (hg : g ∈ pick keep bare aggregated key holds xs) {x y : α} (hx : x ∈ g) (hy : y ∈ g) : ident x = ident y := by
  have hpart := (mem_pick.1 hg).1
  cases bare with
  | false =>
    obtain ⟨z, hz, rfl⟩ := mem_parts_keys.1 hpart
    obtain ⟨hx, hxz⟩ := List.mem_filter.1 hx
    obtain ⟨hy, hyz⟩ := List.mem_filter.1 hy
    exact hkey rfl x hx y hy ((of_decide_eq_true hxz).trans (of_decide_eq_true hyz).symm)
  | true =>
    rw [h rfl] at hpart
    obtain ⟨z, -, rfl⟩ := mem_parts_alone.1 hpart
    rw [List.mem_singleton.1 hx, List.mem_singleton.1 hy]

/-- **Filtering before grouping leaves whole groups**: when the grouping tells `ident` apart, the parts of the rows with
one `ident` are the parts of all rows that have such a row. -/
theorem mem_pick_ident {ι : Type} [DecidableEq ι] {ident : α → ι} {keep : α → Bool} {bare aggregated : Bool}
    {key : α → κ} {holds : List α → Bool} {xs g : List α} {i : ι} (h : bare = true → aggregated = false)
    (hkey : bare = false → ∀ x y, key x = key y → ident x = ident y) :
    g ∈ pick (fun x => keep x && decide (ident x = i)) bare aggregated key holds xs ↔
      g ∈ pick keep bare aggregated key holds xs ∧ ∃ x ∈ g, ident x = i := by
  have hmem : ∀ x, x ∈ xs.filter (fun x => keep x && decide (ident x = i)) ↔ x ∈ xs.filter keep ∧ ident x = i :=
    fun x => by rw [List.mem_filter, List.mem_filter, Bool.and_eq_true, decide_eq_true_eq, and_assoc]
  rw [mem_pick, mem_pick, and_right_comm]
  refine and_congr_left fun _ => ?_
  cases bare with
  | true =>
    rw [h rfl, mem_parts_alone, mem_parts_alone]
    constructor
    · rintro ⟨x, hx, rfl⟩
      exact ⟨⟨x, ((hmem x).1 hx).1, rfl⟩, x, List.mem_cons_self, ((hmem x).1 hx).2⟩
    · rintro ⟨⟨x, hx, rfl⟩, y, hy, hi⟩
      rw [List.mem_singleton.1 hy] at hi
      exact ⟨x, (hmem x).2 ⟨hx, hi⟩, rfl⟩
  | false =>
    have hgroup : ∀ x, ident x = i → (xs.filter fun x => keep x && decide (ident x = i)).filter
        (fun y => decide (key y = key x)) = (xs.filter keep).filter fun y => decide (key y = key x) := by
      intro x hi
      rw [List.filter_filter, List.filter_filter]
      refine List.filter_congr fun y _ => ?_
      by_cases hyx : key y = key x
      · rw [decide_eq_true ((hkey rfl y x hyx).trans hi), Bool.and_true]
      · rw [decide_eq_false hyx, Bool.false_and, Bool.false_and]
    rw [mem_parts_keys, mem_parts_keys]
    constructor
    · rintro ⟨x, hx, rfl⟩
      obtain ⟨hx, hi⟩ := (hmem x).1 hx
      rw [hgroup x hi]
      exact ⟨⟨x, hx, rfl⟩, x, List.mem_filter.2 ⟨hx, decide_eq_true rfl⟩, hi⟩
    · rintro ⟨⟨x, hx, rfl⟩, y, hy, hi⟩
      obtain ⟨hy, hyx⟩ := List.mem_filter.1 hy
      rw [← of_decide_eq_true hyx]
      exact ⟨y, (hmem y).2 ⟨hy, hi⟩, (hgroup y hi).symm⟩

theorem length_parts (aggregated : Bool) (key : α → κ) (xs : List α) :
    (parts false aggregated key xs).length = (xs.map key).dedup.length := by
  simp [parts]

theorem parts_apart (aggregated : Bool) (key : α → κ) (xs : List α) :
    (parts false aggregated key xs).Pairwise fun g g' => ∀ x ∈ g, ∀ y ∈ g', key x ≠ key y := by
  simp only [parts, Bool.false_eq_true, if_false]
  refine List.pairwise_map.2 ((List.nodup_dedup (xs.map key)).imp fun hne x hx y hy hxy => hne ?_)
  have hk := of_decide_eq_true (List.mem_filter.1 hx).2
  have hk' := of_decide_eq_true (List.mem_filter.1 hy).2
  exact hk.symm.trans (hxy.trans hk')

omit [DecidableEq κ] in
/-- **At most one of the parts told apart by a key has members of a kind**, just if the members of that kind agree on
the key. -/
theorem countP_parts_le_one_iff {γ : Type} {members : γ → List α} {key : α → κ} {outs : List γ}
    (hsame : ∀ o ∈ outs, ∀ x ∈ members o, ∀ y ∈ members o, key x = key y)
    (hapart : outs.Pairwise fun o o' => ∀ x ∈ members o, ∀ y ∈ members o', key x ≠ key y) (p : α → Bool) :
    outs.countP (fun o => (members o).any p) ≤ 1 ↔
      ∀ o ∈ outs, ∀ o' ∈ outs, ∀ x ∈ members o, ∀ y ∈ members o', p x = true → p y = true → key x = key y := by
  induction outs with
  | nil => simp
  | cons o outs ih =>
    obtain ⟨hfirst, hrest⟩ := List.pairwise_cons.1 hapart
    have ih := ih (fun o' ho' => hsame o' (List.mem_cons_of_mem o ho')) hrest
    by_cases ho : (members o).any p = true
    · simp only [List.countP_cons, ho, if_true]
      obtain ⟨x, hx, hpx⟩ := List.any_eq_true.1 ho
      have hnone : outs.countP (fun o => (members o).any p) + 1 ≤ 1 ↔
          ∀ o' ∈ outs, ∀ y ∈ members o', p y ≠ true := by
        have hzero : ∀ n : Nat, n + 1 ≤ 1 ↔ n = 0 := fun n => by omega
        rw [hzero, List.countP_eq_zero]
        simp only [List.any_eq_true, not_exists, not_and, ne_eq]
      rw [hnone]
      constructor
      · -- the members of the kind are all in the first part
        intro hno a ha b hb y hy z hz hpy hpz
        rcases List.mem_cons.1 ha with rfl | ha
        · rcases List.mem_cons.1 hb with rfl | hb
          · exact hsame _ List.mem_cons_self y hy z hz
          · exact absurd hpz (hno b hb z hz)
        · exact absurd hpy (hno a ha y hy)
      · intro hagree o' ho' y hy hpy
        exact hfirst o' ho' x hx y hy
          (hagree o List.mem_cons_self o' (List.mem_cons_of_mem o ho') x hx y hy hpx hpy)
    · simp only [List.countP_cons, ho, Bool.false_eq_true, if_false, Nat.add_zero, ih]
      have hnone : ∀ x ∈ members o, p x ≠ true := fun x hx hpx => ho (List.any_eq_true.2 ⟨x, hx, hpx⟩)
      constructor
      · intro hagree a ha b hb x hx y hy hpx hpy
        rcases List.mem_cons.1 ha with rfl | ha
        · exact absurd hpx (hnone x hx)
        · rcases List.mem_cons.1 hb with rfl | hb
          · exact absurd hpy (hnone y hy)
          · exact hagree a ha b hb x hx y hy hpx hpy
      · exact fun hagree a ha b hb => hagree a (List.mem_cons_of_mem o ha) b (List.mem_cons_of_mem o hb)

/-- **Fewer keys than names**: where what bears one name has one key, there are as many different keys as names at
most, and as many just if what has one key bears one name. -/
theorem length_dedup_le {ι : Type} [DecidableEq ι] {key : α → κ} {ident : α → ι} {xs : List α}
    (hkey : ∀ x ∈ xs, ∀ y ∈ xs, ident x = ident y → key x = key y) :
    (xs.map key).dedup.length ≤ (xs.map ident).dedup.length ∧
      ((xs.map key).dedup.length = (xs.map ident).dedup.length ↔
        ∀ x ∈ xs, ∀ y ∈ xs, key x = key y → ident x = ident y) := by
  let pairs : Finset (ι × κ) := (xs.map fun x => (ident x, key x)).toFinset
  have hmem : ∀ p, p ∈ pairs ↔ ∃ x ∈ xs, (ident x, key x) = p := fun p => by simp [pairs]
  -- a name and its key together are as many as the names
  have hnames : (xs.map ident).dedup.length = pairs.card := by
    have himage : (xs.map ident).toFinset = pairs.image Prod.fst := by
      ext i
      simp [pairs]
    rw [← List.card_toFinset, himage, Finset.card_image_of_injOn]
    intro p hp q hq hpq
    obtain ⟨x, hx, rfl⟩ := (hmem p).1 hp
    obtain ⟨y, hy, rfl⟩ := (hmem q).1 hq
    exact Prod.ext hpq (hkey x hx y hy hpq)
  have hkeys : (xs.map key).dedup.length = (pairs.image Prod.snd).card := by
    have himage : (xs.map key).toFinset = pairs.image Prod.snd := by
      ext k
      simp [pairs]
    rw [← List.card_toFinset, himage]
  rw [hnames, hkeys]
  refine ⟨Finset.card_image_le, Finset.card_image_iff.trans ⟨fun h x hx y hy hxy => ?_, fun h p hp q hq hpq => ?_⟩⟩
  · exact congrArg Prod.fst (h ((hmem _).2 ⟨x, hx, rfl⟩) ((hmem _).2 ⟨y, hy, rfl⟩) hxy)
  · obtain ⟨x, hx, rfl⟩ := (hmem p).1 hp
    obtain ⟨y, hy, rfl⟩ := (hmem q).1 hq
    exact Prod.ext (h x hx y hy hpq) hpq

theorem parts_map (f : β → α) (bare aggregated : Bool) (key : α → κ) (xs : List β) :
    parts bare aggregated key (xs.map f) = (parts bare aggregated (fun x => key (f x)) xs).map (List.map f) := by
  unfold parts
  cases bare <;> cases aggregated <;> simp [List.filter_map, Function.comp_def]

/-- **Picking from an image** is picking by what the images say. -/
theorem pick_map (f : β → α) (keep : α → Bool) (bare aggregated : Bool) (key : α → κ) (holds : List α → Bool)
    (xs : List β) : pick keep bare aggregated key holds (xs.map f) =
      (pick (fun x => keep (f x)) bare aggregated (fun x => key (f x)) (fun g => holds (g.map f)) xs).map
        (List.map f) := by
  unfold pick
  rw [List.filter_map, parts_map, List.filter_map]
  rfl

theorem parts_congr {bare aggregated : Bool} {key key' : α → κ} {xs : List α} (h : ∀ x ∈ xs, key x = key' x) :
    parts bare aggregated key xs = parts bare aggregated key' xs := by
  have hk : xs.map key = xs.map key' := List.map_congr_left h
  unfold parts
  rw [hk]
  congr 1
  refine List.map_congr_left fun k _ => List.filter_congr fun x hx => ?_
  rw [h x hx]

theorem pick_congr {keep keep' : α → Bool} {bare aggregated : Bool} {key key' : α → κ} {holds holds' : List α → Bool}
    {xs : List α} (hkeep : ∀ x ∈ xs, keep x = keep' x) (hkey : ∀ x ∈ xs, key x = key' x)
    (hholds : ∀ g, (∀ x ∈ g, x ∈ xs) → holds g = holds' g) :
    pick keep bare aggregated key holds xs = pick keep' bare aggregated key' holds' xs := by
  have hparts : parts bare aggregated key (xs.filter keep') = parts bare aggregated key' (xs.filter keep') :=
    parts_congr fun x hx => hkey x (List.mem_filter.1 hx).1
  unfold pick
  rw [List.filter_congr hkeep, hparts]
  refine List.filter_congr fun g hg => hholds g fun x hx => ?_
  exact (List.mem_filter.1 (mem_of_mem_parts hg hx)).1

end

/-! ## Rows that spring from one another

Each row of a list springs from one of `rows`, and `ident` tells from which: no two of `rows` have one name. -/

section
variable {α ρ κ ι : Type} [DecidableEq κ] [DecidableEq ι] {rows : List ρ} {span : ρ → List α} {ident : α → ι}
  {name : ρ → ι}

omit [DecidableEq ι] in
theorem eq_of_name_eq (hname : rows.Pairwise fun r t => name r ≠ name t) {r t : ρ} (hr : r ∈ rows) (ht : t ∈ rows)
    (h : name r = name t) : r = t := List.inj_on_of_nodup_map (List.pairwise_map.2 hname) hr ht h

theorem filter_ident_flatMap (hspan : ∀ r ∈ rows, ∀ x ∈ span r, ident x = name r)
    (hname : rows.Pairwise fun r t => name r ≠ name t) {r : ρ} (hr : r ∈ rows) :
    (rows.flatMap span).filter (fun x => decide (ident x = name r)) = span r := by
  induction rows with
  | nil => cases hr
  | cons t rest ih =>
    obtain ⟨hne, hrest⟩ := List.pairwise_cons.1 hname
    rw [List.flatMap_cons, List.filter_append]
    have hspan' : ∀ r ∈ rest, ∀ x ∈ span r, ident x = name r := fun r h => hspan r (List.mem_cons_of_mem _ h)
    rcases List.mem_cons.1 hr with rfl | hr'
    · have hall : (span r).filter (fun x => decide (ident x = name r)) = span r :=
        List.filter_eq_self.2 fun x hx => decide_eq_true (hspan r hr x hx)
      have hnone : (rest.flatMap span).filter (fun x => decide (ident x = name r)) = [] := by
        refine List.filter_eq_nil_iff.2 fun x hx => ?_
        obtain ⟨u, hu, hxu⟩ := List.mem_flatMap.1 hx
        rw [hspan' u hu x hxu]
        simpa using (hne u hu).symm
      rw [hall, hnone, List.append_nil]
    · have hnone : (span t).filter (fun x => decide (ident x = name r)) = [] := by
        refine List.filter_eq_nil_iff.2 fun x hx => ?_
        rw [hspan t List.mem_cons_self x hx]
        simpa using hne r hr'
      rw [hnone, List.nil_append, ih hspan' hrest hr']

theorem filter_ident_kept (hspan : ∀ r ∈ rows, ∀ x ∈ span r, ident x = name r)
    (hname : rows.Pairwise fun r t => name r ≠ name t) {r : ρ} (hr : r ∈ rows) (keep : α → Bool) :
    ((rows.flatMap span).filter keep).filter (fun x => decide (ident x = name r)) = (span r).filter keep := by
  rw [List.filter_comm, filter_ident_flatMap hspan hname hr]

/-- **Who is in a part.**  When all parts are kept, or when the key tells the bearers apart, a bearer has a row in some
part kept just if some part of its own rows is kept. -/
theorem exists_mem_pick_iff (hspan : ∀ r ∈ rows, ∀ x ∈ span r, ident x = name r)
    (hname : rows.Pairwise fun r t => name r ≠ name t) {keep : α → Bool} {bare aggregated : Bool} {key : α → κ}
    {holds : List α → Bool}
    (h : (∀ g, holds g = true) ∨ bare = false ∧ ∀ x ∈ (rows.flatMap span).filter keep,
      ∀ y ∈ (rows.flatMap span).filter keep, key x = key y → ident x = ident y) {r : ρ} (hr : r ∈ rows) :
    (∃ g ∈ pick keep bare aggregated key holds (rows.flatMap span), ∃ x ∈ g, ident x = name r) ↔
      ∃ x ∈ (span r).filter keep, holds (((span r).filter keep).filter fun y => decide (key y = key x)) = true := by
  have hown := filter_ident_kept hspan hname hr keep
  have hmem : ∀ x, x ∈ (span r).filter keep ↔ x ∈ (rows.flatMap span).filter keep ∧ ident x = name r := fun x => by
    rw [← hown, List.mem_filter, decide_eq_true_eq]
  rcases h with hall | ⟨rfl, hkey⟩
  · constructor
    · rintro ⟨g, hg, x, hx, hident⟩
      exact ⟨x, (hmem x).2 ⟨mem_of_mem_parts (mem_pick.1 hg).1 hx, hident⟩, hall _⟩
    · rintro ⟨x, hx, -⟩
      obtain ⟨hxm, hident⟩ := (hmem x).1 hx
      obtain ⟨g, hg, hxg⟩ := exists_mem_parts bare aggregated key hxm
      exact ⟨g, mem_pick.2 ⟨hg, hall g⟩, x, hxg, hident⟩
  · -- a part with a row of the bearer is a part of the bearer's rows
    have hpart : ∀ x ∈ (span r).filter keep,
        ((rows.flatMap span).filter keep).filter (fun y => decide (key y = key x)) =
          ((span r).filter keep).filter fun y => decide (key y = key x) := by
      intro x hx
      obtain ⟨hxm, hident⟩ := (hmem x).1 hx
      rw [← hown]
      refine Eq.trans (List.filter_congr fun y hy => ?_) List.filter_filter.symm
      by_cases hyx : key y = key x
      · rw [decide_eq_true hyx, decide_eq_true ((hkey y hy x hxm hyx).trans hident)]
        rfl
      · rw [decide_eq_false hyx]
        rfl
    constructor
    · rintro ⟨g, hg, x, hx, hident⟩
      obtain ⟨hparts, hholds⟩ := mem_pick.1 hg
      have hxr : x ∈ (span r).filter keep := (hmem x).2 ⟨mem_of_mem_parts hparts hx, hident⟩
      obtain ⟨z, hz, rfl⟩ := mem_parts_keys.1 hparts
      have hxz : key x = key z := of_decide_eq_true (List.mem_filter.1 hx).2
      refine ⟨x, hxr, ?_⟩
      rw [← hpart x hxr, hxz]
      exact hholds
    · rintro ⟨x, hx, hholds⟩
      rw [← hpart x hx] at hholds
      obtain ⟨hxm, hident⟩ := (hmem x).1 hx
      exact ⟨_, mem_pick.2 ⟨mem_parts_keys.2 ⟨x, hxm, rfl⟩, hholds⟩, x,
        List.mem_filter.2 ⟨hxm, decide_eq_true rfl⟩, hident⟩

/-- **The parts kept are as many as the bearers that have one**, when the key tells bearers apart and not the rows of
one bearer: each part is then all that is kept of one bearer's rows. -/
theorem length_pick (hspan : ∀ r ∈ rows, ∀ x ∈ span r, ident x = name r)
    (hname : rows.Pairwise fun r t => name r ≠ name t) (keep : α → Bool) (aggregated : Bool) (key : α → κ)
    (holds : List α → Bool) (hkey : ∀ x ∈ (rows.flatMap span).filter keep, ∀ y ∈ (rows.flatMap span).filter keep,
      (key x = key y ↔ ident x = ident y)) :
    (pick keep false aggregated key holds (rows.flatMap span)).length =
      rows.countP fun r => !((span r).filter keep).isEmpty && holds ((span r).filter keep) := by
  have hmem : ∀ r ∈ rows, ∀ x ∈ (span r).filter keep, x ∈ (rows.flatMap span).filter keep := fun r hr x hx => by
    obtain ⟨hx, hkeep⟩ := List.mem_filter.1 hx
    exact List.mem_filter.2 ⟨List.mem_flatMap.2 ⟨r, hr, hx⟩, hkeep⟩
  have hpart : ∀ r ∈ rows, ∀ x ∈ (span r).filter keep,
      ((rows.flatMap span).filter keep).filter (fun y => decide (key y = key x)) = (span r).filter keep := by
    intro r hr x hx
    rw [← filter_ident_kept hspan hname hr keep]
    refine List.filter_congr fun y hy => ?_
    rw [decide_eq_decide, hkey y hy x (hmem r hr x hx), hspan r hr x (List.mem_filter.1 hx).1]
  -- both lists have the same parts, each of them once
  have hperm : (pick keep false aggregated key holds (rows.flatMap span)).Perm
      ((rows.filter fun r => !((span r).filter keep).isEmpty && holds ((span r).filter keep)).map
        fun r => (span r).filter keep) := by
    have hleft : (pick keep false aggregated key holds (rows.flatMap span)).Nodup := by
      refine ((parts_apart aggregated key _).filter holds).imp_of_mem fun hg _ hapart heq => ?_
      obtain ⟨x, hx⟩ := List.exists_mem_of_ne_nil _
        (ne_nil_of_mem_pick (fun h => by cases h) (show _ ∈ pick keep false aggregated key holds _ from hg))
      exact hapart x hx x (heq ▸ hx) rfl
    have hright : ((rows.filter fun r => !((span r).filter keep).isEmpty && holds ((span r).filter keep)).map
        fun r => (span r).filter keep).Nodup := by
      refine List.pairwise_map.2 ((hname.filter _).imp_of_mem fun hr ht hne heq => hne ?_)
      obtain ⟨hr, hsome⟩ := List.mem_filter.1 hr
      rw [Bool.and_eq_true, Bool.not_eq_true', List.isEmpty_eq_false_iff] at hsome
      obtain ⟨x, hx⟩ := List.exists_mem_of_ne_nil _ hsome.1
      rw [← hspan _ hr x (List.mem_filter.1 hx).1]
      rw [heq] at hx
      exact hspan _ (List.mem_filter.1 ht).1 x (List.mem_filter.1 hx).1
    refine (List.perm_ext_iff_of_nodup hleft hright).2 fun g => ?_
    rw [mem_pick, mem_parts_keys, List.mem_map]
    constructor
    · rintro ⟨⟨x, hx, rfl⟩, hholds⟩
      obtain ⟨hx, hkeep⟩ := List.mem_filter.1 hx
      obtain ⟨r, hr, hx⟩ := List.mem_flatMap.1 hx
      have hxr : x ∈ (span r).filter keep := List.mem_filter.2 ⟨hx, hkeep⟩
      rw [hpart r hr x hxr] at hholds ⊢
      refine ⟨r, List.mem_filter.2 ⟨hr, ?_⟩, rfl⟩
      rw [hholds, List.isEmpty_eq_false_iff.2 (List.ne_nil_of_mem hxr)]
      rfl
    · rintro ⟨r, hr, rfl⟩
      obtain ⟨hr, hsome⟩ := List.mem_filter.1 hr
      rw [Bool.and_eq_true, Bool.not_eq_true', List.isEmpty_eq_false_iff] at hsome
      obtain ⟨x, hx⟩ := List.exists_mem_of_ne_nil _ hsome.1
      exact ⟨⟨x, hmem r hr x hx, (hpart r hr x hx).symm⟩, hsome.2⟩
  rw [hperm.length_eq, List.length_map, List.countP_eq_length_filter]

omit [DecidableEq ι] in
theorem exists_part_iff {xs : List α} {key : α → κ} {holds : List α → Bool} (hkey : ∀ x ∈ xs, ∀ y ∈ xs, key y = key x) :
    (∃ x ∈ xs, holds (xs.filter fun y => decide (key y = key x)) = true) ↔ xs ≠ [] ∧ holds xs = true := by
  have hwhole : ∀ x ∈ xs, xs.filter (fun y => decide (key y = key x)) = xs := fun x hx =>
    List.filter_eq_self.2 fun y hy => decide_eq_true (hkey x hx y hy)
  constructor
  · rintro ⟨x, hx, hholds⟩
    rw [hwhole x hx] at hholds
    exact ⟨List.ne_nil_of_mem hx, hholds⟩
  · rintro ⟨hne, hholds⟩
    obtain ⟨x, hx⟩ := List.exists_mem_of_ne_nil _ hne
    rw [← hwhole x hx] at hholds
    exact ⟨x, hx, hholds⟩

end

/-! ## Lists that repeat a list -/

/-- The second list has, for each element of the first in turn, one or more elements related to it. -/
inductive Spread {α β : Type} (R : α → β → Prop) : List α → List β → Prop where
  | nil : Spread R [] []
  | one {a : α} {b : β} {as : List α} {bs : List β} (h : R a b) (rest : Spread R as bs) :
      Spread R (a :: as) (b :: bs)
  | more {a : α} {b : β} {as : List α} {bs : List β} (h : R a b) (rest : Spread R (a :: as) bs) :
      Spread R (a :: as) (b :: bs)

namespace Spread
variable {α β γ δ : Type} {R : α → β → Prop} {S : γ → δ → Prop}

theorem map {f : α → γ} {g : β → δ} (hRS : ∀ a b, R a b → S (f a) (g b)) {as : List α} {bs : List β}
    (h : Spread R as bs) : Spread S (as.map f) (bs.map g) := by
  induction h with
  | nil => exact .nil
  | one h _ ih => exact .one (hRS _ _ h) ih
  | more h _ ih => exact .more (hRS _ _ h) ih

theorem append_block {a : α} {block : List β} (hne : block ≠ []) (hR : ∀ b ∈ block, R a b) {as : List α}
    {bs : List β} (h : Spread R as bs) : Spread R (a :: as) (block ++ bs) := by
  induction block with
  | nil => exact absurd rfl hne
  | cons b block ih =>
    have hb : R a b := hR b List.mem_cons_self
    by_cases hempty : block = []
    · subst hempty
      exact .one hb h
    · exact .more hb (ih hempty fun c hc => hR c (List.mem_cons_of_mem _ hc))

theorem flatMap {as : List α} {blocks : α → List β} (hne : ∀ a ∈ as, blocks a ≠ [])
    (hR : ∀ a ∈ as, ∀ b ∈ blocks a, R a b) : Spread R as (as.flatMap blocks) := by
  induction as with
  | nil => exact .nil
  | cons a as ih =>
    rw [List.flatMap_cons]
    exact append_block (hne a List.mem_cons_self) (hR a List.mem_cons_self)
      (ih (fun b hb => hne b (List.mem_cons_of_mem _ hb)) fun b hb => hR b (List.mem_cons_of_mem _ hb))

theorem eq_nil_iff {as : List α} {bs : List β} (h : Spread R as bs) : as = [] ↔ bs = [] := by
  cases h <;> simp

theorem of_forall₂ {as : List α} {bs : List β} (h : List.Forall₂ R as bs) : Spread R as bs := by
  induction h with
  | nil => exact .nil
  | cons h _ ih => exact .one h ih

theorem headD {a₀ : α} {b₀ : β} (h₀ : R a₀ b₀) {as : List α} {bs : List β} (h : Spread R as bs) :
    R (as.headD a₀) (bs.headD b₀) := by
  cases h with
  | nil => exact h₀
  | one h _ => exact h
  | more h _ => exact h

theorem filter {p : α → Bool} {q : β → Bool} (hpq : ∀ a b, R a b → p a = q b) {as : List α} {bs : List β}
    (h : Spread R as bs) : Spread R (as.filter p) (bs.filter q) := by
  induction h with
  | nil => exact .nil
  | @one a b as bs hab _ ih =>
    have hsame := hpq a b hab
    by_cases hp : p a = true
    · rw [List.filter_cons_of_pos hp, List.filter_cons_of_pos (hsame ▸ hp)]
      exact .one hab ih
    · rw [List.filter_cons_of_neg hp, List.filter_cons_of_neg (hsame ▸ hp)]
      exact ih
  | @more a b as bs hab _ ih =>
    have hsame := hpq a b hab
    by_cases hp : p a = true
    · rw [List.filter_cons_of_pos hp] at ih ⊢
      rw [List.filter_cons_of_pos (hsame ▸ hp)]
      exact .more hab ih
    · rw [List.filter_cons_of_neg (hsame ▸ hp : ¬q b = true)]
      exact ih

theorem filterMap_id {as bs : List (Option α)} (h : Spread Eq as bs) :
    Spread Eq (as.filterMap id) (bs.filterMap id) := by
  induction h with
  | nil => exact .nil
  | @one a b as bs hab _ ih =>
    subst hab
    cases a with
    | none => exact ih
    | some x => exact .one rfl ih
  | @more a b as bs hab _ ih =>
    subst hab
    cases a with
    | none => exact ih
    | some x => exact .more rfl ih

theorem mem_iff {as bs : List α} (h : Spread Eq as bs) (x : α) : x ∈ as ↔ x ∈ bs := by
  induction h with
  | nil => rfl
  | one hab _ ih => rw [List.mem_cons, List.mem_cons, ih, hab]
  | @more a b as bs hab _ ih =>
    subst hab
    constructor
    · exact fun hx => List.mem_cons_of_mem a (ih.1 hx)
    · intro hx
      rcases List.mem_cons.1 hx with rfl | hx
      · exact List.mem_cons_self
      · exact ih.2 hx

theorem length_dedup [DecidableEq α] {as bs : List α} (h : Spread Eq as bs) :
    as.dedup.length = bs.dedup.length := by
  refine List.Perm.length_eq ((List.perm_ext_iff_of_nodup (List.nodup_dedup as) (List.nodup_dedup bs)).2 fun x => ?_)
  rw [List.mem_dedup, List.mem_dedup, mem_iff h]

end Spread
end PageQuery
