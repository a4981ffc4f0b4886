import PageQuery.Sql.Value
/-!
# Expressions

The expressions that statements are made of.  A statement keeps its conditions as a list of
conjuncts; a conjunction inside one of them is an expression like any other.  A subquery selects one
expression from one table and its left joins, and its conditions may mention the labels around it.
A label is the alias that a statement gives a table with AS.
-/
namespace PageQuery

structure Column where
  source : String
  name : String
  deriving DecidableEq, Repr

/-- A left join, on the equality of a column of its own and a column of an earlier table.  It is
to-many when one row may join with many. -/
structure Join where
  table : String
  label : String
  column : String
  owner : Column
  toMany : Bool
  deriving DecidableEq, Repr

inductive Function where
  | lower
  | count
  | countDistinct
  | sum
  | avg
  | min
  | max
  deriving DecidableEq, Repr

inductive Comparison where
  | eq
  | ne
  | lt
  | le
  | gt
  | ge
  deriving DecidableEq, Repr

mutual

inductive Expr where
  | column (c : Column)
  | value (v : Value)
  | call (f : Function) (arg : Expr)
  | compare (op : Comparison) (left right : Expr)
  | isNull (e : Expr)
  | isNotNull (e : Expr)
  | between (e low high : Expr)
  | inValues (e : Expr) (values : List Value)
  | inQuery (e : Expr) (query : Subquery)
  | like (e : Expr) (pattern : String)
  | not (e : Expr)
  | and (left right : Expr)
  | or (left right : Expr)
  | nonempty (query : Subquery)
  | scalar (query : Subquery)

inductive Subquery where
  | select (item : Expr) (table label : String) (joins : List Join)
      (conditions groupBy having : List Expr)

end

namespace Expr

def col (source name : String) : Expr := .column ⟨source, name⟩

def eq (left right : Expr) : Expr := .compare .eq left right

/-- Any of the expressions, grouped from the left; none of them is nothing. -/
def disjunction : List Expr → Option Expr
  | [] => none
  | e :: es => some (es.foldl Expr.or e)

end Expr

/-! ## Equality is decidable -/

mutual

def Expr.beq : Expr → Expr → Bool
  | .column a, .column b => decide (a = b)
  | .value a, .value b => decide (a = b)
  | .call f a, .call g b => decide (f = g) && Expr.beq a b
  | .compare o a b, .compare p c d => decide (o = p) && Expr.beq a c && Expr.beq b d
  | .isNull a, .isNull b => Expr.beq a b
  | .isNotNull a, .isNotNull b => Expr.beq a b
  | .between a b c, .between d e f => Expr.beq a d && Expr.beq b e && Expr.beq c f
  | .inValues a vs, .inValues b ws => Expr.beq a b && decide (vs = ws)
  | .inQuery a p, .inQuery b q => Expr.beq a b && Subquery.beq p q
  | .like a s, .like b t => Expr.beq a b && decide (s = t)
  | .not a, .not b => Expr.beq a b
  | .and a b, .and c d => Expr.beq a c && Expr.beq b d
  | .or a b, .or c d => Expr.beq a c && Expr.beq b d
  | .nonempty p, .nonempty q => Subquery.beq p q
  | .scalar p, .scalar q => Subquery.beq p q
  | _, _ => false

def Expr.beqAll : List Expr → List Expr → Bool
  | [], [] => true
  | a :: as, b :: bs => Expr.beq a b && Expr.beqAll as bs
  | _, _ => false

def Subquery.beq : Subquery → Subquery → Bool
  | .select a t s js cs gs hs, .select b u r ks ds is_ ls =>
    Expr.beq a b && decide (t = u) && decide (s = r) && decide (js = ks) &&
      Expr.beqAll cs ds && Expr.beqAll gs is_ && Expr.beqAll hs ls

end

mutual

theorem Expr.beq_refl : ∀ a : Expr, Expr.beq a a = true
  | .column _ => by simp [Expr.beq]
  | .value _ => by simp [Expr.beq]
  | .call _ a => by simp [Expr.beq, Expr.beq_refl a]
  | .compare _ a b => by simp [Expr.beq, Expr.beq_refl a, Expr.beq_refl b]
  | .isNull a => by simp [Expr.beq, Expr.beq_refl a]
  | .isNotNull a => by simp [Expr.beq, Expr.beq_refl a]
  | .between a b c => by simp [Expr.beq, Expr.beq_refl a, Expr.beq_refl b, Expr.beq_refl c]
  | .inValues a _ => by simp [Expr.beq, Expr.beq_refl a]
  | .inQuery a q => by simp [Expr.beq, Expr.beq_refl a, Subquery.beq_refl q]
  | .like a _ => by simp [Expr.beq, Expr.beq_refl a]
  | .not a => by simp [Expr.beq, Expr.beq_refl a]
  | .and a b => by simp [Expr.beq, Expr.beq_refl a, Expr.beq_refl b]
  | .or a b => by simp [Expr.beq, Expr.beq_refl a, Expr.beq_refl b]
  | .nonempty q => by simp [Expr.beq, Subquery.beq_refl q]
  | .scalar q => by simp [Expr.beq, Subquery.beq_refl q]

theorem Expr.beqAll_refl : ∀ as : List Expr, Expr.beqAll as as = true
  | [] => by simp [Expr.beqAll]
  | a :: as => by simp [Expr.beqAll, Expr.beq_refl a, Expr.beqAll_refl as]

theorem Subquery.beq_refl : ∀ q : Subquery, Subquery.beq q q = true
  | .select a _ _ _ cs gs hs => by
    simp [Subquery.beq, Expr.beq_refl a, Expr.beqAll_refl cs, Expr.beqAll_refl gs,
      Expr.beqAll_refl hs]

end

mutual

theorem Expr.eq_of_beq : ∀ a b : Expr, Expr.beq a b = true → a = b
  | .column _, b, h => by cases b <;> simp_all [Expr.beq]
  | .value _, b, h => by cases b <;> simp_all [Expr.beq]
  | .call _ a, b, h => by
    cases b <;> simp only [Expr.beq, Bool.and_eq_true, decide_eq_true_eq, Bool.false_eq_true] at h
    rw [h.1, Expr.eq_of_beq a _ h.2]
  | .compare _ a a', b, h => by
    cases b <;> simp only [Expr.beq, Bool.and_eq_true, decide_eq_true_eq, Bool.false_eq_true] at h
    rw [h.1.1, Expr.eq_of_beq a _ h.1.2, Expr.eq_of_beq a' _ h.2]
  | .isNull a, b, h => by
    cases b <;> simp only [Expr.beq, Bool.false_eq_true] at h
    rw [Expr.eq_of_beq a _ h]
  | .isNotNull a, b, h => by
    cases b <;> simp only [Expr.beq, Bool.false_eq_true] at h
    rw [Expr.eq_of_beq a _ h]
  | .between a a' a'', b, h => by
    cases b <;> simp only [Expr.beq, Bool.and_eq_true, Bool.false_eq_true] at h
    rw [Expr.eq_of_beq a _ h.1.1, Expr.eq_of_beq a' _ h.1.2, Expr.eq_of_beq a'' _ h.2]
  | .inValues a _, b, h => by
    cases b <;> simp only [Expr.beq, Bool.and_eq_true, decide_eq_true_eq, Bool.false_eq_true] at h
    rw [Expr.eq_of_beq a _ h.1, h.2]
  | .inQuery a q, b, h => by
    cases b <;> simp only [Expr.beq, Bool.and_eq_true, Bool.false_eq_true] at h
    rw [Expr.eq_of_beq a _ h.1, Subquery.eq_of_beq q _ h.2]
  | .like a _, b, h => by
    cases b <;> simp only [Expr.beq, Bool.and_eq_true, decide_eq_true_eq, Bool.false_eq_true] at h
    rw [Expr.eq_of_beq a _ h.1, h.2]
  | .not a, b, h => by
    cases b <;> simp only [Expr.beq, Bool.false_eq_true] at h
    rw [Expr.eq_of_beq a _ h]
  | .and a a', b, h => by
    cases b <;> simp only [Expr.beq, Bool.and_eq_true, Bool.false_eq_true] at h
    rw [Expr.eq_of_beq a _ h.1, Expr.eq_of_beq a' _ h.2]
  | .or a a', b, h => by
    cases b <;> simp only [Expr.beq, Bool.and_eq_true, Bool.false_eq_true] at h
    rw [Expr.eq_of_beq a _ h.1, Expr.eq_of_beq a' _ h.2]
  | .nonempty q, b, h => by
    cases b <;> simp only [Expr.beq, Bool.false_eq_true] at h
    rw [Subquery.eq_of_beq q _ h]
  | .scalar q, b, h => by
    cases b <;> simp only [Expr.beq, Bool.false_eq_true] at h
    rw [Subquery.eq_of_beq q _ h]

theorem Expr.eq_of_beqAll : ∀ as bs : List Expr, Expr.beqAll as bs = true → as = bs
  | [], bs, h => by cases bs <;> simp_all [Expr.beqAll]
  | a :: as, bs, h => by
    cases bs <;> simp only [Expr.beqAll, Bool.and_eq_true, Bool.false_eq_true] at h
    rw [Expr.eq_of_beq a _ h.1, Expr.eq_of_beqAll as _ h.2]

theorem Subquery.eq_of_beq : ∀ p q : Subquery, Subquery.beq p q = true → p = q
  | .select a _ _ _ cs gs hs, .select b _ _ _ ds is_ ls, h => by
    simp only [Subquery.beq, Bool.and_eq_true, decide_eq_true_eq] at h
    obtain ⟨⟨⟨⟨⟨⟨h1, h2⟩, h3⟩, h4⟩, h5⟩, h6⟩, h7⟩ := h
    rw [Expr.eq_of_beq a b h1, h2, h3, h4, Expr.eq_of_beqAll cs ds h5,
      Expr.eq_of_beqAll gs is_ h6, Expr.eq_of_beqAll hs ls h7]

end

instance : DecidableEq Expr := fun a b =>
  if h : Expr.beq a b = true then isTrue (Expr.eq_of_beq a b h)
  else isFalse fun e => h (e ▸ Expr.beq_refl a)

end PageQuery
