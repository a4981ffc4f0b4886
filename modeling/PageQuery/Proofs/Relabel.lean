import Mathlib.Logic.Function.Basic
import PageQuery.Proofs.Meaning
/-!
# Other labels for the same statement

Labels are names that a statement chooses for its tables.  Choosing others changes nothing that the statement means, as
long as different labels stay different: the joined rows are the same rows under the new labels.
-/
namespace PageQuery

def Column.relabel (f : String → String) (c : Column) : Column := ⟨f c.source, c.name⟩

def Join.relabel (f : String → String) (j : Join) : Join :=
  { j with label := f j.label, owner := j.owner.relabel f }

mutual

/-- The expression with other labels, those of its subqueries included. -/
def Expr.relabel (f : String → String) : Expr → Expr
  | .column c => .column (c.relabel f)
  | .value v => .value v
  | .call g a => .call g (a.relabel f)
  | .compare op a b => .compare op (a.relabel f) (b.relabel f)
  | .isNull a => .isNull (a.relabel f)
  | .isNotNull a => .isNotNull (a.relabel f)
  | .between a low high => .between (a.relabel f) (low.relabel f) (high.relabel f)
  | .inValues a vs => .inValues (a.relabel f) vs
  | .inQuery a q => .inQuery (a.relabel f) (q.relabel f)
  | .like a pattern => .like (a.relabel f) pattern
  | .not a => .not (a.relabel f)
  | .and a b => .and (a.relabel f) (b.relabel f)
  | .or a b => .or (a.relabel f) (b.relabel f)
  | .nonempty q => .nonempty (q.relabel f)
  | .scalar q => .scalar (q.relabel f)

def Expr.relabelAll (f : String → String) : List Expr → List Expr
  | [] => []
  | e :: es => e.relabel f :: Expr.relabelAll f es

def Subquery.relabel (f : String → String) : Subquery → Subquery
  | .select item table label joins conditions groupBy having =>
    .select (item.relabel f) table (f label) (joins.map (Join.relabel f)) (Expr.relabelAll f conditions)
      (Expr.relabelAll f groupBy) (Expr.relabelAll f having)

end

theorem Expr.relabelAll_eq_map (f : String → String) (es : List Expr) :
    Expr.relabelAll f es = es.map (Expr.relabel f) := by
  induction es with
  | nil => simp [Expr.relabelAll]
  | cons e es ih => simp [Expr.relabelAll, ih]

theorem Subquery.relabel_select (f : String → String) (item : Expr) (table label : String) (joins : List Join)
    (conditions groupBy having : List Expr) :
    (Subquery.select item table label joins conditions groupBy having).relabel f =
      .select (item.relabel f) table (f label) (joins.map (Join.relabel f)) (conditions.map (Expr.relabel f))
        (groupBy.map (Expr.relabel f)) (having.map (Expr.relabel f)) := by
  simp only [Subquery.relabel, Expr.relabelAll_eq_map]

@[simp] theorem Expr.isAggregate_relabel (f : String → String) :
    ∀ e : Expr, (e.relabel f).isAggregate = e.isAggregate
  | .column _ | .value _ | .nonempty _ | .scalar _ => by simp [Expr.relabel, Expr.isAggregate]
  | .call _ a => by simp [Expr.relabel, Expr.isAggregate, Expr.isAggregate_relabel f a]
  | .compare _ a b | .and a b | .or a b => by
    simp [Expr.relabel, Expr.isAggregate, Expr.isAggregate_relabel f a, Expr.isAggregate_relabel f b]
  | .isNull a | .isNotNull a | .inValues a _ | .inQuery a _ | .like a _ | .not a => by
    simp [Expr.relabel, Expr.isAggregate, Expr.isAggregate_relabel f a]
  | .between a b c => by
    simp [Expr.relabel, Expr.isAggregate, Expr.isAggregate_relabel f a, Expr.isAggregate_relabel f b,
      Expr.isAggregate_relabel f c]

/-! ## Joined rows -/

namespace Tuple

def relabel (f : String → String) (w : Tuple) : Tuple := w.map fun p => (f p.1, p.2)

variable {f : String → String} (d : Dialect) (db : Store)

theorem relabel_append (w v : Tuple) : relabel f (w ++ v) = relabel f w ++ relabel f v := List.map_append

theorem lookup_relabel (hf : Function.Injective f) (l : String) (w : Tuple) :
    (w.relabel f).lookup (f l) = w.lookup l := by
  induction w with
  | nil => rfl
  | cons p w ih =>
    obtain ⟨m, r⟩ := p
    have hl : (f l == f m) = (l == m) := by
      rw [Bool.eq_iff_iff, beq_iff_eq, beq_iff_eq]
      exact hf.eq_iff
    simp only [relabel, List.map_cons, List.lookup_cons, hl]
    cases l == m with
    | true => rfl
    | false => exact ih

theorem cell_relabel (hf : Function.Injective f) (w : Tuple) (c : Column) :
    (w.relabel f).cell (c.relabel f) = w.cell c := by
  unfold cell Column.relabel
  rw [lookup_relabel hf]

theorem extend_relabel (hf : Function.Injective f) (w : Tuple) (j : Join) :
    (w.relabel f).extend d db (j.relabel f) = (w.extend d db j).map (relabel f) := by
  have hcell : (w.relabel f).cell (j.relabel f).owner = w.cell j.owner := cell_relabel hf w j.owner
  unfold extend
  rw [hcell]
  simp only [Join.relabel]
  cases (db.rows j.table).filter fun r => d.equal (r j.column) (w.cell j.owner) with
  | nil => simp [relabel]
  | cons r rs => simp [relabel, Function.comp_def]

theorem joined_relabel (hf : Function.Injective f) (js : List Join) (w : Tuple) :
    joined d db (js.map (Join.relabel f)) (w.relabel f) = (joined d db js w).map (relabel f) := by
  induction js generalizing w with
  | nil => rfl
  | cons j js ih =>
    simp only [List.map_cons, joined]
    rw [extend_relabel d db hf, List.flatMap_map, List.map_flatMap]
    exact List.flatMap_congr fun v _ => ih v

end Tuple

theorem Store.tuples_relabel {f : String → String} (hf : Function.Injective f) (d : Dialect) (db : Store)
    (table label : String) (js : List Join) :
    db.tuples d table (f label) (js.map (Join.relabel f)) = (db.tuples d table label js).map (Tuple.relabel f) := by
  unfold Store.tuples
  rw [List.map_flatMap]
  exact List.flatMap_congr fun r _ => Tuple.joined_relabel d db hf js [(label, r)]

/-! ## Meaning -/

theorem head_relabel (f : String → String) (g : List Tuple) :
    (g.map (Tuple.relabel f)).headD [] = Tuple.relabel f (g.headD []) := by
  cases g <;> rfl

section
variable {f : String → String}

mutual

/-- **Relabelled expressions mean the same** over joined rows under the new labels. -/
theorem Expr.eval_relabel (hf : Function.Injective f) (d : Dialect) (db : Store) : ∀ (e : Expr) (g : List Tuple),
    (e.relabel f).eval d db (g.map (Tuple.relabel f)) = e.eval d db g
  | .column c, g => by
    simp only [Expr.relabel, Expr.eval, head_relabel f, Tuple.cell_relabel hf]
  | .value v, g => by simp only [Expr.relabel, Expr.eval]
  | .call k a, g => by
    have each : ∀ w : Tuple, (a.relabel f).eval d db [w.relabel f] = a.eval d db [w] := fun w =>
      Expr.eval_relabel hf d db a [w]
    simp only [Expr.relabel, Expr.eval, List.map_map, Function.comp_def, each, Expr.eval_relabel hf d db a g]
  | .compare op a b, g => by
    simp only [Expr.relabel, Expr.eval, Expr.eval_relabel hf d db a g, Expr.eval_relabel hf d db b g]
  | .isNull a, g => by simp only [Expr.relabel, Expr.eval, Expr.eval_relabel hf d db a g]
  | .isNotNull a, g => by simp only [Expr.relabel, Expr.eval, Expr.eval_relabel hf d db a g]
  | .between a low high, g => by
    simp only [Expr.relabel, Expr.eval, Expr.eval_relabel hf d db a g, Expr.eval_relabel hf d db low g,
      Expr.eval_relabel hf d db high g]
  | .inValues a vs, g => by simp only [Expr.relabel, Expr.eval, Expr.eval_relabel hf d db a g]
  | .inQuery a q, g => by
    simp only [Expr.relabel, Expr.eval, Expr.eval_relabel hf d db a g, head_relabel f, Subquery.eval_relabel hf d db q]
  | .like a pattern, g => by simp only [Expr.relabel, Expr.eval, Expr.eval_relabel hf d db a g]
  | .not a, g => by simp only [Expr.relabel, Expr.eval, Expr.eval_relabel hf d db a g]
  | .and a b, g | .or a b, g => by
    simp only [Expr.relabel, Expr.eval, Expr.eval_relabel hf d db a g, Expr.eval_relabel hf d db b g]
  | .nonempty q, g => by simp only [Expr.relabel, Expr.eval, head_relabel f, Subquery.eval_relabel hf d db q]
  | .scalar q, g => by simp only [Expr.relabel, Expr.eval, head_relabel f, Subquery.eval_relabel hf d db q]

theorem Expr.evalAll_relabel (hf : Function.Injective f) (d : Dialect) (db : Store) :
    ∀ (es : List Expr) (g : List Tuple),
      Expr.evalAll d db (Expr.relabelAll f es) (g.map (Tuple.relabel f)) = Expr.evalAll d db es g
  | [], g => by simp only [Expr.relabelAll, Expr.evalAll]
  | e :: es, g => by
    simp only [Expr.relabelAll, Expr.evalAll, Expr.eval_relabel hf d db e g, Expr.evalAll_relabel hf d db es g]

theorem Subquery.eval_relabel (hf : Function.Injective f) (d : Dialect) (db : Store) :
    ∀ (q : Subquery) (outer : Tuple),
      (q.relabel f).eval d db (outer.relabel f) = q.eval d db outer
  | .select item table label joins conditions groupBy having, outer => by
    -- what a subquery looks at are its own rows with the outer row behind them, relabelled as one
    have behind : ∀ g : List Tuple, g.map (fun w => Tuple.relabel f w ++ Tuple.relabel f outer) =
        (g.map (· ++ outer)).map (Tuple.relabel f) := fun g => by
      rw [List.map_map]
      exact List.map_congr_left fun w _ => (Tuple.relabel_append w outer).symm
    have one : ∀ w : Tuple, [Tuple.relabel f w ++ Tuple.relabel f outer] =
        [w ++ outer].map (Tuple.relabel f) := fun w => behind [w]
    have hcond : ∀ w : Tuple, Expr.evalAll d db (Expr.relabelAll f conditions) [w.relabel f ++ outer.relabel f] =
        Expr.evalAll d db conditions [w ++ outer] := fun w => by
      rw [one, Expr.evalAll_relabel hf d db conditions]
    have hgroup : ∀ w : Tuple, Expr.evalAll d db (Expr.relabelAll f groupBy) [w.relabel f ++ outer.relabel f] =
        Expr.evalAll d db groupBy [w ++ outer] := fun w => by
      rw [one, Expr.evalAll_relabel hf d db groupBy]
    have hhaving : ∀ g : List Tuple,
        Expr.evalAll d db (Expr.relabelAll f having) (g.map fun w => w.relabel f ++ outer.relabel f) =
          Expr.evalAll d db having (g.map (· ++ outer)) := fun g => by
      rw [behind, Expr.evalAll_relabel hf d db having]
    have hitem : ∀ g : List Tuple, (item.relabel f).eval d db (g.map fun w => w.relabel f ++ outer.relabel f) =
        item.eval d db (g.map (· ++ outer)) := fun g => by
      rw [behind, Expr.eval_relabel hf d db item]
    have bare : (Expr.relabelAll f groupBy).isEmpty = groupBy.isEmpty := by
      rw [Expr.relabelAll_eq_map, List.isEmpty_map]
    have free : (Expr.relabelAll f having).isEmpty = having.isEmpty := by
      rw [Expr.relabelAll_eq_map, List.isEmpty_map]
    simp only [Subquery.relabel, Subquery.eval, Store.tuples_relabel hf, pick_map, List.map_map, Function.comp_def,
      bare, free, Expr.isAggregate_relabel, hcond, hgroup, hhaving, hitem]

end

theorem holdsAll_relabel (hf : Function.Injective f) (d : Dialect) (db : Store) (es : List Expr) (g : List Tuple) :
    holdsAll d db (es.map (Expr.relabel f)) (g.map (Tuple.relabel f)) = holdsAll d db es g := by
  simp only [holdsAll, List.all_map, Function.comp_def, Expr.eval_relabel hf d db]

end
end PageQuery
