import PageQuery.Proofs.OneRow
/-!
# Joined rows as choices of rows

A joined row has a row under every label: for each join one that matches its owner's, or no row where none matches.
While labels differ, the joined rows are all the choices that fit every join.  What is chosen at some labels is free as
far as it fits, when the owners of those labels are among them; joins along identities leave no choice.
-/
namespace PageQuery

variable {d : Dialect} {db : Store}

def Store.matching (d : Dialect) (db : Store) (table column : String) (c : Cell) : List Row :=
  (db.rows table).filter fun r => d.equal (r column) c

/-- The row chosen under a join's label matches its owner's, or is no row if none matches. -/
def Join.Fits (d : Dialect) (db : Store) (φ : String → Row) (j : Join) : Prop :=
  φ j.label ∈ db.matching d j.table j.column (φ j.owner.source j.owner.name) ∨
    db.matching d j.table j.column (φ j.owner.source j.owner.name) = [] ∧ φ j.label = nullRow

theorem Join.InOrder.owner_mem_before {j : Join} {post : List Join} : ∀ {pre : List Join} {seen : List String},
    InOrder seen (pre ++ j :: post) → j.owner.source ∈ seen ++ pre.map Join.label
  | [], _, h => List.mem_append_left _ h.1
  | k :: pre, seen, h => by
    have hlater := owner_mem_before h.2
    simp only [List.cons_append, List.map_cons, List.mem_cons, List.mem_append] at hlater ⊢
    tauto

theorem Join.InOrder.owner_mem {j : Join} {js : List Join} {seen : List String} (h : InOrder seen js) (hj : j ∈ js) :
    j.owner.source ∈ seen ++ js.map Join.label := by
  obtain ⟨pre, post, rfl⟩ := List.append_of_mem hj
  have hbefore := owner_mem_before h
  rw [List.map_append]
  simp only [List.mem_append] at hbefore ⊢
  tauto

theorem Join.Fits.congr {φ χ : String → Row} {j : Join} (hlabel : χ j.label = φ j.label)
    (howner : χ j.owner.source = φ j.owner.source) (h : j.Fits d db φ) : j.Fits d db χ := by
  unfold Join.Fits at h ⊢
  rwa [hlabel, howner]

theorem Join.Fits.update {φ : String → Row} {j : Join} {l : String} (h : j.Fits d db φ) (hlabel : j.label ≠ l)
    (howner : j.owner.source ≠ l) (r : Row) : j.Fits d db (Function.update φ l r) :=
  h.congr (Function.update_of_ne hlabel r φ) (Function.update_of_ne howner r φ)

theorem Join.Fits.eq {φ χ : String → Row} {j : Join} (hkeyed : db.Keyed d j.table j.column)
    (howner : χ j.owner.source = φ j.owner.source) (hφ : j.Fits d db φ) (hχ : j.Fits d db χ) :
    χ j.label = φ j.label := by
  unfold Join.Fits at hφ hχ
  rw [howner] at hχ
  rcases hφ with hφ | ⟨hnone, hφ⟩
  · rcases hχ with hχ | ⟨hnone, -⟩
    · have hkeys : ∀ {r : Row}, r ∈ db.matching d j.table j.column (φ j.owner.source j.owner.name) →
          r ∈ db.rows j.table ∧ d.key (r j.column) = d.key (φ j.owner.source j.owner.name) := fun hr => by
        obtain ⟨hmem, hequal⟩ := List.mem_filter.1 hr
        rw [Dialect.equal, Bool.and_eq_true, decide_eq_true_eq] at hequal
        exact ⟨hmem, hequal.2⟩
      exact eq_of_name_eq hkeyed.apart (hkeys hχ).1 (hkeys hφ).1 ((hkeys hχ).2.trans (hkeys hφ).2.symm)
    · rw [hnone] at hφ
      cases hφ
  · rcases hχ with hχ | ⟨-, hχ⟩
    · rw [hnone] at hχ
      cases hχ
    · rw [hφ, hχ]

/-! ## The rows of a joined row -/

namespace Tuple

def rowOf (w : Tuple) (l : String) : Row := (w.lookup l).getD nullRow

theorem cell_eq (w : Tuple) (c : Column) : w.cell c = w.rowOf c.source c.name := by
  unfold cell rowOf
  cases w.lookup c.source <;> rfl

theorem rowOf_append {w : Tuple} {l : String} (h : l ∈ w.map Prod.fst) (u : Tuple) :
    (w ++ u).rowOf l = w.rowOf l := by
  obtain ⟨p, hp, rfl⟩ := List.mem_map.1 h
  obtain ⟨r, hr⟩ := Option.isSome_iff_exists.1 (List.lookup_isSome_iff.2 ⟨p, hp, beq_self_eq_true p.1⟩)
  unfold rowOf
  rw [List.lookup_append, hr]
  rfl

theorem rowOf_concat {w : Tuple} {l : String} (h : l ∉ w.map Prod.fst) (r : Row) : (w ++ [(l, r)]).rowOf l = r := by
  have hnone : w.lookup l = none := by
    rw [List.lookup_eq_none_iff]
    exact fun p hp => bne_iff_ne.2 fun heq => h (heq ▸ List.mem_map_of_mem hp)
  unfold rowOf
  rw [List.lookup_append, hnone]
  simp

theorem mem_extend_iff {w u : Tuple} {j : Join} :
    u ∈ w.extend d db j ↔ ∃ r, u = w ++ [(j.label, r)] ∧
      (r ∈ db.matching d j.table j.column (w.rowOf j.owner.source j.owner.name) ∨
        db.matching d j.table j.column (w.rowOf j.owner.source j.owner.name) = [] ∧ r = nullRow) := by
  have hmatching : ((db.rows j.table).filter fun r => d.equal (r j.column) (w.cell j.owner)) =
      db.matching d j.table j.column (w.rowOf j.owner.source j.owner.name) := by
    rw [cell_eq]
    rfl
  unfold extend
  rw [hmatching]
  cases db.matching d j.table j.column (w.rowOf j.owner.source j.owner.name) with
  | nil => simp
  | cons r rs =>
    rw [List.mem_map]
    constructor
    · rintro ⟨t, ht, rfl⟩
      exact ⟨t, rfl, .inl ht⟩
    · rintro ⟨t, rfl, ht | ⟨hnone, -⟩⟩
      · exact ⟨t, ht, rfl⟩
      · cases hnone

/-- **A joined row fits every join.** -/
theorem fits_of_mem_joined : ∀ {js : List Join} {seen : List String} {w v : Tuple}, Join.InOrder seen js →
    (∀ l ∈ seen, l ∈ w.map Prod.fst) → (w.map Prod.fst ++ js.map Join.label).Nodup → v ∈ joined d db js w →
    (∀ l ∈ w.map Prod.fst, v.rowOf l = w.rowOf l) ∧ ∀ j ∈ js, j.Fits d db v.rowOf
  | [], _, w, v, _, _, _, hv => by
    rw [List.mem_singleton.1 hv]
    exact ⟨fun _ _ => rfl, fun _ hj => (List.not_mem_nil hj).elim⟩
  | j :: js, seen, w, v, horder, hseen, hnodup, hv => by
    obtain ⟨u, hu, hv⟩ := List.mem_flatMap.1 hv
    obtain ⟨r, rfl, hr⟩ := mem_extend_iff.1 hu
    have hlabels : (w ++ [(j.label, r)]).map Prod.fst = w.map Prod.fst ++ [j.label] := List.map_append
    have hnew : j.label ∉ w.map Prod.fst := fun hmem =>
      (List.nodup_append.1 hnodup).2.2 _ hmem _ List.mem_cons_self rfl
    obtain ⟨hsame, hfits⟩ := fits_of_mem_joined horder.2
      (by
        rw [hlabels]
        intro l hl
        rcases List.mem_cons.1 hl with rfl | hl
        · exact List.mem_append_right _ List.mem_cons_self
        · exact List.mem_append_left _ (hseen l hl))
      (by
        rw [hlabels, List.append_assoc]
        exact hnodup) hv
    rw [hlabels] at hsame
    have hfirst : ∀ l ∈ w.map Prod.fst, v.rowOf l = w.rowOf l := fun l hl =>
      (hsame l (List.mem_append_left _ hl)).trans (rowOf_append hl _)
    refine ⟨hfirst, fun k hk => ?_⟩
    rcases List.mem_cons.1 hk with rfl | hk
    · unfold Join.Fits
      rw [hsame k.label (List.mem_append_right _ List.mem_cons_self), rowOf_concat hnew, hfirst _ (hseen _ horder.1)]
      exact hr
    · exact hfits k hk

theorem fits_of_mem_span {label : String} {js : List Join} (horder : Join.InOrder [label] js)
    (hnodup : (label :: js.map Join.label).Nodup) {row : Row} {w : Tuple} (hw : w ∈ joined d db js [(label, row)]) :
    w.rowOf label = row ∧ ∀ j ∈ js, j.Fits d db w.rowOf := by
  have hstart : ∀ l ∈ [label], l ∈ List.map Prod.fst [(label, row)] := fun _ hl => hl
  obtain ⟨hrow, hfits⟩ := fits_of_mem_joined horder hstart hnodup hw
  refine ⟨(hrow label List.mem_cons_self).trans ?_, hfits⟩
  simp [rowOf]

/-- **Rows that fit can be chosen** at labels that come with their owners: some joined row has them. -/
theorem exists_mem_joined {φ : String → Row} {S : String → Prop} : ∀ {js : List Join} {seen : List String}
    {w : Tuple}, Join.InOrder seen js → (∀ l ∈ seen, l ∈ w.map Prod.fst) →
    (w.map Prod.fst ++ js.map Join.label).Nodup → (∀ j ∈ js, S j.label → S j.owner.source ∧ j.Fits d db φ) →
    (∀ l ∈ w.map Prod.fst, S l → w.rowOf l = φ l) →
    ∃ v ∈ joined d db js w, ∀ l ∈ w.map Prod.fst ++ js.map Join.label, S l → v.rowOf l = φ l
  | [], _, w, _, _, _, _, hw => ⟨w, List.mem_singleton.2 rfl, fun l hl => hw l (by simpa using hl)⟩
  | j :: js, seen, w, horder, hseen, hnodup, hfits, hw => by
    have hnew : j.label ∉ w.map Prod.fst := fun hmem =>
      (List.nodup_append.1 hnodup).2.2 _ hmem _ List.mem_cons_self rfl
    -- the row prescribed for this join, or any if none is
    have hstep : ∃ r, w ++ [(j.label, r)] ∈ w.extend d db j ∧ (S j.label → r = φ j.label) := by
      by_cases hj : S j.label
      · obtain ⟨howner, hfit⟩ := hfits j List.mem_cons_self hj
        refine ⟨φ j.label, mem_extend_iff.2 ⟨_, rfl, ?_⟩, fun _ => rfl⟩
        rw [hw _ (hseen _ horder.1) howner]
        exact hfit
      · obtain ⟨u, hu⟩ := List.exists_mem_of_ne_nil _ (Selection.extend_ne_nil d db w j)
        obtain ⟨r, rfl, -⟩ := mem_extend_iff.1 hu
        exact ⟨r, hu, fun h => absurd h hj⟩
    obtain ⟨r, hu, hr⟩ := hstep
    have hlabels : (w ++ [(j.label, r)]).map Prod.fst = w.map Prod.fst ++ [j.label] := List.map_append
    have hassoc : w.map Prod.fst ++ [j.label] ++ js.map Join.label = w.map Prod.fst ++ (j :: js).map Join.label := by
      rw [List.append_assoc]
      rfl
    obtain ⟨v, hv, hchosen⟩ := exists_mem_joined (φ := φ) (S := S) horder.2
      (w := w ++ [(j.label, r)])
      (by
        rw [hlabels]
        intro l hl
        rcases List.mem_cons.1 hl with rfl | hl
        · exact List.mem_append_right _ List.mem_cons_self
        · exact List.mem_append_left _ (hseen l hl))
      (by rwa [hlabels, hassoc]) (fun k hk => hfits k (List.mem_cons_of_mem j hk))
      (by
        rw [hlabels]
        intro l hl hS
        rcases List.mem_append.1 hl with hl | hl
        · rw [rowOf_append hl]
          exact hw l hl hS
        · rw [List.mem_singleton.1 hl] at hS ⊢
          rw [rowOf_concat hnew]
          exact hr hS)
    rw [hlabels, hassoc] at hchosen
    exact ⟨v, List.mem_flatMap.2 ⟨_, hu, hv⟩, hchosen⟩

end Tuple

/-- **Choices that fit agree** on the joins they share, as far as these are along identities: `T` are labels that come
with their owners, among which every join is along an identity. -/
theorem choices_agree {φ χ : String → Row} {T : String → Prop} : ∀ {js : List Join} {seen : List String},
    Join.InOrder seen js → (∀ l ∈ seen, T l → χ l = φ l) → (∀ j ∈ js, j.Fits d db χ) →
    (∀ j ∈ js, T j.label → T j.owner.source ∧ j.Fits d db φ ∧ db.Keyed d j.table j.column) →
    ∀ j ∈ js, T j.label → χ j.label = φ j.label
  | [], _, _, _, _, _, j, hj, _ => (List.not_mem_nil hj).elim
  | k :: js, seen, horder, hseen, hχ, hT, j, hj, hl => by
    have hfirst : T k.label → χ k.label = φ k.label := fun hk => by
      obtain ⟨howner, hφ, hkeyed⟩ := hT k List.mem_cons_self hk
      exact Join.Fits.eq hkeyed (hseen _ horder.1 howner) hφ (hχ k List.mem_cons_self)
    rcases List.mem_cons.1 hj with rfl | hj
    · exact hfirst hl
    · refine choices_agree horder.2 (fun l hl => ?_) (fun i hi => hχ i (List.mem_cons_of_mem k hi))
        (fun i hi => hT i (List.mem_cons_of_mem k hi)) j hj hl
      rcases List.mem_cons.1 hl with rfl | hl
      · exact hfirst
      · exact hseen l hl

/-! ## Choices for several lists of joins -/

section
variable {α : Type} {label : String} {row : Row} {J : α → List Join} {φ : α → String → Row} {a : α} {L : List α}

/-- Lists of joins that start at one label, with a choice for each: a label means the same join in all of them, and the
choices fit and have the same row at the start. -/
structure Choices (d : Dialect) (db : Store) (label : String) (row : Row) (J : α → List Join) (φ : α → String → Row)
    (L : List α) : Prop where
  inOrder : ∀ a ∈ L, Join.InOrder [label] (J a)
  same : ∀ a ∈ L, ∀ b ∈ L, ∀ j ∈ J a, ∀ k ∈ J b, j.label = k.label → j = k
  label_ne : ∀ a ∈ L, ∀ j ∈ J a, j.label ≠ label
  row : ∀ a ∈ L, φ a label = row
  fits : ∀ a ∈ L, ∀ j ∈ J a, j.Fits d db (φ a)

namespace Choices

theorem tail (h : Choices d db label row J φ (a :: L)) : Choices d db label row J φ L where
  inOrder b hb := h.inOrder b (List.mem_cons_of_mem a hb)
  same b hb c hc := h.same b (List.mem_cons_of_mem a hb) c (List.mem_cons_of_mem a hc)
  label_ne b hb := h.label_ne b (List.mem_cons_of_mem a hb)
  row b hb := h.row b (List.mem_cons_of_mem a hb)
  fits b hb := h.fits b (List.mem_cons_of_mem a hb)

/-- The labels that have their row once the lists have their choice. -/
def Settled (label : String) (J : α → List Join) (L : List α) (l : String) : Prop :=
  l = label ∨ ∃ a ∈ L, ∃ j ∈ J a, j.label = l

/-- A choice made for later lists agrees with the first list's where they share joins along identities. -/
theorem settled_agree (h : Choices d db label row J φ (a :: L)) {χ : String → Row} (hrow : χ label = row)
    (hχ : ∀ b ∈ L, ∀ j ∈ J b, χ j.label = φ b j.label)
    (hkeyed : ∀ b ∈ L, ∀ j ∈ J a, j ∈ J b → db.Keyed d j.table j.column) :
    ∀ j ∈ J a, Settled label J L j.label → φ a j.label = χ j.label := by
  have hcarried : ∀ b ∈ L, ∀ l ∈ [label] ++ (J b).map Join.label, χ l = φ b l := by
    intro b hb l hl
    rcases List.mem_append.1 hl with hl | hl
    · rw [List.mem_singleton.1 hl, hrow, h.tail.row b hb]
    · obtain ⟨j, hj, rfl⟩ := List.mem_map.1 hl
      exact hχ b hb j hj
  refine choices_agree (h.inOrder a List.mem_cons_self) (fun l hl _ => ?_) (h.fits a List.mem_cons_self)
    fun j hj hsettled => ?_
  · rw [List.mem_singleton.1 hl, hrow, h.row a List.mem_cons_self]
  · obtain hself | ⟨b, hb, k, hk, hkj⟩ := hsettled
    · exact absurd hself (h.label_ne a List.mem_cons_self j hj)
    · obtain rfl := h.same b (List.mem_cons_of_mem a hb) a List.mem_cons_self k hk j hj hkj
      have howner := (h.tail.inOrder b hb).owner_mem hk
      refine ⟨?_, (h.tail.fits b hb k hk).congr (hχ b hb k hk) (hcarried b hb _ howner), hkeyed b hb k hj hk⟩
      rcases List.mem_append.1 howner with howner | howner
      · exact .inl (List.mem_singleton.1 howner)
      · obtain ⟨i, hi, hlabel⟩ := List.mem_map.1 howner
        exact .inr ⟨b, hb, i, hi, hlabel⟩

/-- **Choices for several lists of joins make one choice for all of them**, if the joins shared are along identities. -/
theorem merge : ∀ {L : List α}, Choices d db label row J φ L →
    (L.Pairwise fun a b => ∀ j ∈ J a, j ∈ J b → db.Keyed d j.table j.column) →
    ∃ ψ : String → Row, ψ label = row ∧ ∀ a ∈ L, ∀ j ∈ J a, ψ j.label = φ a j.label
  | [], _, _ => ⟨fun _ => row, rfl, fun _ ha => (List.not_mem_nil ha).elim⟩
  | a :: L, h, hkeyed => by
    obtain ⟨hfirst, hrest⟩ := List.pairwise_cons.1 hkeyed
    obtain ⟨χ, hrow, hχ⟩ := merge h.tail hrest
    -- the later lists' choice where it is settled, and the first list's elsewhere
    classical
    refine ⟨fun l => if Settled label J L l then χ l else φ a l, (if_pos (.inl rfl)).trans hrow, fun b hb j hj => ?_⟩
    rcases List.mem_cons.1 hb with rfl | hb
    · by_cases hsettled : Settled label J L j.label
      · exact (if_pos hsettled).trans (h.settled_agree hrow hχ hfirst j hj hsettled).symm
      · exact if_neg hsettled
    · exact (if_pos (.inr ⟨b, hb, j, hj, rfl⟩)).trans (hχ b hb j hj)

end Choices

end

end PageQuery
