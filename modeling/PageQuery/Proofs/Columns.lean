import PageQuery.Proofs.Sight
import PageQuery.Proofs.Tested
/-!
# What stands in an expression

Which columns, functions and subqueries stand in an expression says what it sees: the labels of its columns, and of each
subquery what that reads from outside.  An expression is within some labels when its columns have them, its functions
do not notice repeated rows, and its subqueries are of a given kind; such an expression is steady.
-/
namespace PageQuery
namespace Expr

/-- The columns read, those inside subqueries left out. -/
def columns : Expr → List Column
  | .column c => [c]
  | .value _ | .nonempty _ | .scalar _ => []
  | .call _ e | .isNull e | .isNotNull e | .inValues e _ | .inQuery e _ | .like e _ | .not e => e.columns
  | .compare _ a b | .and a b | .or a b => a.columns ++ b.columns
  | .between a b c => a.columns ++ (b.columns ++ c.columns)

def functions : Expr → List Function
  | .column _ | .value _ | .nonempty _ | .scalar _ => []
  | .call f e => f :: e.functions
  | .isNull e | .isNotNull e | .inValues e _ | .inQuery e _ | .like e _ | .not e => e.functions
  | .compare _ a b | .and a b | .or a b => a.functions ++ b.functions
  | .between a b c => a.functions ++ (b.functions ++ c.functions)

/-- The subqueries, those inside them left out. -/
def subqueries : Expr → List Subquery
  | .column _ | .value _ => []
  | .nonempty q | .scalar q => [q]
  | .inQuery e q => e.subqueries ++ [q]
  | .call _ e | .isNull e | .isNotNull e | .inValues e _ | .like e _ | .not e => e.subqueries
  | .compare _ a b | .and a b | .or a b => a.subqueries ++ b.subqueries
  | .between a b c => a.subqueries ++ (b.subqueries ++ c.subqueries)

/-- The columns of an expression have labels seen, its functions are of rows or do not notice repeated ones, and its
subqueries are of one kind. -/
structure Within (seen : String → Prop) (kind : Subquery → Prop) (e : Expr) : Prop where
  columns : ∀ c ∈ e.columns, seen c.source
  functions : ∀ f ∈ e.functions, f = .lower ∨ f.isSteady = true
  subqueries : ∀ q ∈ e.subqueries, kind q

namespace Within
variable {seen seen' : String → Prop} {kind kind' : Subquery → Prop}

theorem mono (hsub : ∀ l, seen l → seen' l) {e : Expr} (h : e.Within seen kind) : e.Within seen' kind :=
  ⟨fun c hc => hsub _ (h.columns c hc), h.functions, h.subqueries⟩

theorem col {source : String} (h : seen source) (name : String) : (Expr.col source name).Within seen kind := by
  refine ⟨fun c hc => ?_, fun f hf => (List.not_mem_nil hf).elim, fun q hq => (List.not_mem_nil hq).elim⟩
  rw [List.mem_singleton.1 hc]
  exact h

theorem value (v : Value) : (Expr.value v).Within seen kind :=
  ⟨fun _ hc => (List.not_mem_nil hc).elim, fun _ hf => (List.not_mem_nil hf).elim,
    fun _ hq => (List.not_mem_nil hq).elim⟩

theorem call {f : Function} (hf : f = .lower ∨ f.isSteady = true) {e : Expr} (h : e.Within seen kind) :
    (Expr.call f e).Within seen kind := by
  refine ⟨h.columns, fun g hg => ?_, h.subqueries⟩
  rcases List.mem_cons.1 hg with rfl | hg
  · exact hf
  · exact h.functions g hg

theorem isNull {e : Expr} (h : e.Within seen kind) : (Expr.isNull e).Within seen kind := ⟨h.1, h.2, h.3⟩

theorem isNotNull {e : Expr} (h : e.Within seen kind) : (Expr.isNotNull e).Within seen kind := ⟨h.1, h.2, h.3⟩

theorem not {e : Expr} (h : e.Within seen kind) : (Expr.not e).Within seen kind := ⟨h.1, h.2, h.3⟩

theorem compare (op : Comparison) {a b : Expr} (ha : a.Within seen kind) (hb : b.Within seen kind) :
    (Expr.compare op a b).Within seen kind :=
  ⟨fun c hc => (List.mem_append.1 hc).elim (ha.columns c) (hb.columns c),
    fun f hf => (List.mem_append.1 hf).elim (ha.functions f) (hb.functions f),
    fun q hq => (List.mem_append.1 hq).elim (ha.subqueries q) (hb.subqueries q)⟩

theorem or {a b : Expr} (ha : a.Within seen kind) (hb : b.Within seen kind) : (Expr.or a b).Within seen kind :=
  have hboth : (Expr.compare .eq a b).Within seen kind := ha.compare .eq hb
  ⟨hboth.1, hboth.2, hboth.3⟩

theorem and {a b : Expr} (ha : a.Within seen kind) (hb : b.Within seen kind) : (Expr.and a b).Within seen kind :=
  have hboth : (Expr.compare .eq a b).Within seen kind := ha.compare .eq hb
  ⟨hboth.1, hboth.2, hboth.3⟩

theorem between {e low high : Expr} (he : e.Within seen kind) (hlow : low.Within seen kind)
    (hhigh : high.Within seen kind) : (Expr.between e low high).Within seen kind :=
  have hall : (Expr.compare .eq e (Expr.compare .eq low high)).Within seen kind :=
    he.compare .eq (hlow.compare .eq hhigh)
  ⟨hall.1, hall.2, hall.3⟩

theorem scalar {q : Subquery} (h : kind q) : (Expr.scalar q).Within seen kind :=
  ⟨fun _ hc => (List.not_mem_nil hc).elim, fun _ hf => (List.not_mem_nil hf).elim,
    fun _ hp => List.mem_singleton.1 hp ▸ h⟩

theorem nonempty {q : Subquery} (h : kind q) : (Expr.nonempty q).Within seen kind :=
  ⟨fun _ hc => (List.not_mem_nil hc).elim, fun _ hf => (List.not_mem_nil hf).elim,
    fun _ hp => List.mem_singleton.1 hp ▸ h⟩

end Within

theorem testable_within (seen : String → Prop) (kind : Subquery → Prop) :
    Testable (Within seen kind) (Within seen kind) where
  lower := fun _ h => h.call (.inl rfl)
  compare := fun op _ v h => h.compare op (.value v)
  between := fun _ v w h => h.between (.value v) (.value w)
  like := fun _ _ h => ⟨h.1, h.2, h.3⟩
  among := fun _ _ h => ⟨h.1, h.2, h.3⟩
  isNull := fun _ h => h.isNull
  not := fun _ h => h.not
  or := fun _ _ ha hb => ha.or hb

/-! ## What that says of their values -/

section
variable {d : Dialect} {db : Store} {seen : String → Prop} {R : List Tuple → List Tuple → Prop}

/-- Related lists of joined rows show an expression the same, if they show its columns, its subqueries and its
functions of groups the same. -/
theorem eval_congr (hone : ∀ w v : Tuple, w.Alike seen v → R [w] [v])
    (hhead : ∀ g g', R g g' → Tuple.Alike seen (g.headD []) (g'.headD [])) : ∀ e : Expr,
    (∀ c ∈ e.columns, seen c.source) →
    (∀ f ∈ e.functions, f.isAggregate = true → ∀ φ : Tuple → Cell, (∀ w v : Tuple, w.Alike seen v → φ w = φ v) →
      ∀ g g', R g g' → d.aggregate f (g.map φ) = d.aggregate f (g'.map φ)) →
    (∀ q ∈ e.subqueries, ∀ w v : Tuple, w.Alike seen v → q.eval d db w = q.eval d db v) →
    ∀ g g', R g g' → e.eval d db g = e.eval d db g'
  | .column c, hc, _, _, g, g', hg => by
    simp only [Expr.eval]
    exact Tuple.cell_congr (hhead g g' hg) (hc c List.mem_cons_self)
  | .value v, _, _, _, g, g', _ => by simp only [Expr.eval]
  | .call f e, hc, hf, hq, g, g', hg => by
    have he := eval_congr hone hhead e hc (fun f' hf' => hf f' (List.mem_cons_of_mem f hf')) hq
    cases hagg : f.isAggregate with
    | true =>
      have hcells := hf f List.mem_cons_self hagg (fun w => e.eval d db [w]) fun w v hwv => he _ _ (hone w v hwv)
      simp only [Expr.eval, hagg, if_true, hcells g g' hg]
    | false => simp only [Expr.eval, hagg, Bool.false_eq_true, if_false, he g g' hg]
  | .compare _ a b, hc, hf, hq, g, g', hg => by
    simp only [columns, functions, subqueries, List.forall_mem_append] at hc hf hq
    have ha := eval_congr hone hhead a hc.1 hf.1 hq.1 g g' hg
    have hb := eval_congr hone hhead b hc.2 hf.2 hq.2 g g' hg
    simp only [Expr.eval, ha, hb]
  | .isNull e, hc, hf, hq, g, g', hg | .isNotNull e, hc, hf, hq, g, g', hg | .inValues e _, hc, hf, hq, g, g', hg
  | .like e _, hc, hf, hq, g, g', hg | .not e, hc, hf, hq, g, g', hg => by
    have he := eval_congr hone hhead e hc hf hq g g' hg
    simp only [Expr.eval, he]
  | .between a b c, hc, hf, hq, g, g', hg => by
    simp only [columns, functions, subqueries, List.forall_mem_append] at hc hf hq
    have ha := eval_congr hone hhead a hc.1 hf.1 hq.1 g g' hg
    have hb := eval_congr hone hhead b hc.2.1 hf.2.1 hq.2.1 g g' hg
    have hc := eval_congr hone hhead c hc.2.2 hf.2.2 hq.2.2 g g' hg
    simp only [Expr.eval, ha, hb, hc]
  | .inQuery e q, hc, hf, hq, g, g', hg => by
    simp only [subqueries, List.forall_mem_append] at hq
    have he := eval_congr hone hhead e hc hf hq.1 g g' hg
    simp only [Expr.eval, he, hq.2 q List.mem_cons_self _ _ (hhead g g' hg)]
  | .and a b, hc, hf, hq, g, g', hg | .or a b, hc, hf, hq, g, g', hg => by
    simp only [columns, functions, subqueries, List.forall_mem_append] at hc hf hq
    have ha := eval_congr hone hhead a hc.1 hf.1 hq.1 g g' hg
    have hb := eval_congr hone hhead b hc.2 hf.2 hq.2 g g' hg
    simp only [Expr.eval, ha, hb]
  | .nonempty q, _, _, hq, g, g', hg | .scalar q, _, _, hq, g, g', hg => by
    simp only [Expr.eval, hq q List.mem_cons_self _ _ (hhead g g' hg)]

theorem map_eq_of_forall₂ {φ : Tuple → Cell} (hφ : ∀ w v : Tuple, w.Alike seen v → φ w = φ v) {g g' : List Tuple}
    (hg : List.Forall₂ (Tuple.Alike seen) g g') : g.map φ = g'.map φ := by
  induction hg with
  | nil => rfl
  | cons hwv _ ih => rw [List.map_cons, List.map_cons, ih, hφ _ _ hwv]

theorem sees_of_columns {e : Expr} (hc : ∀ c ∈ e.columns, seen c.source)
    (hq : ∀ q ∈ e.subqueries, ∀ w v : Tuple, w.Alike seen v → q.eval d db w = q.eval d db v) : e.Sees d db seen :=
  eval_congr (fun _ _ hwv => .cons hwv .nil) (fun _ _ hg => (Spread.of_forall₂ hg).headD (Tuple.Alike.refl seen [])) e
    hc (fun f _ _ _ hφ _ _ hg => congrArg (d.aggregate f) (map_eq_of_forall₂ hφ hg)) hq

theorem Within.steady {kind : Subquery → Prop}
    (hkind : ∀ q, kind q → ∀ w v : Tuple, w.Alike seen v → q.eval d db w = q.eval d db v) {e : Expr}
    (h : e.Within seen kind) : e.Steady d db seen := by
  refine eval_congr (fun _ _ hwv => .one hwv .nil) (fun _ _ hg => hg.headD (Tuple.Alike.refl seen [])) e h.columns
    (fun f hf hagg φ hφ g g' hg => ?_) fun q hq => hkind q (h.subqueries q hq)
  rcases h.functions f hf with rfl | hsteady
  · cases hagg
  · exact aggregate_spread d hsteady (hg.map hφ)

end

end Expr
end PageQuery
