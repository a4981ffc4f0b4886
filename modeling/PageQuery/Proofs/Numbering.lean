import Mathlib.Data.List.DropRight
import PageQuery.Proofs.Paths
import PageQuery.Proofs.Recompile
import PageQuery.Proofs.Tested
/-!
# Compiling does not depend on what was compiled before

What a scope has resolved so far decides three things of what is compiled next: which of its joins are there already, at
which number the names of its operands go on, and the number in the label of its subquery.  The rest is as in a scope
where nothing was resolved yet, so up to the numbers of subqueries a predicate depends on its criterion alone.
-/
namespace PageQuery

/-! ## Expressions without the numbers of their subqueries -/

/-- The label without the number at its end. -/
def bareLabel (l : String) : String := String.ofList (l.toList.rdropWhile Char.isDigit)

theorem bareLabel_numbered {l : String} {c : Char} (hlast : l.toList.getLast? = some c) (hc : c.isDigit = false)
    (n : Nat) : bareLabel (l ++ toString n) = l := by
  have hdigits : ∀ x ∈ (toString n).toList, x.isDigit = true := by
    intro x hx
    rw [Nat.toString_eq_repr, Nat.toList_repr] at hx
    exact Nat.isDigit_of_mem_toDigits (by decide) (by decide) hx
  have hrest : l.toList.rdropWhile Char.isDigit = l.toList := by
    rw [List.rdropWhile_eq_self_iff]
    intro hne
    rw [List.getLast?_eq_some_getLast hne] at hlast
    rw [Option.some.inj hlast, hc]
    exact Bool.false_ne_true
  unfold bareLabel
  rw [String.toList_append, List.rdropWhile, List.reverse_append, List.dropWhile_append_of_pos, ← List.rdropWhile,
    hrest, String.ofList_toList]
  exact fun x hx => hdigits x (List.mem_reverse.1 hx)

mutual

/-- The expression with its subqueries under labels without numbers. -/
def Expr.unnumbered : Expr → Expr
  | .column c => .column c
  | .value v => .value v
  | .call f a => .call f a.unnumbered
  | .compare op a b => .compare op a.unnumbered b.unnumbered
  | .isNull a => .isNull a.unnumbered
  | .isNotNull a => .isNotNull a.unnumbered
  | .between a low high => .between a.unnumbered low.unnumbered high.unnumbered
  | .inValues a vs => .inValues a.unnumbered vs
  | .inQuery a q => .inQuery a.unnumbered q.unnumbered
  | .like a pattern => .like a.unnumbered pattern
  | .not a => .not a.unnumbered
  | .and a b => .and a.unnumbered b.unnumbered
  | .or a b => .or a.unnumbered b.unnumbered
  | .nonempty q => .nonempty q.unnumbered
  | .scalar q => .scalar q.unnumbered

def Expr.unnumberedAll : List Expr → List Expr
  | [] => []
  | e :: es => e.unnumbered :: Expr.unnumberedAll es

def Subquery.unnumbered : Subquery → Subquery
  | .select item table label joins conditions groupBy having =>
    (Subquery.select item.unnumbered table label joins (Expr.unnumberedAll conditions) (Expr.unnumberedAll groupBy)
      (Expr.unnumberedAll having)).relabel (rebase label (bareLabel label))

end

theorem Expr.unnumberedAll_eq_map (es : List Expr) : Expr.unnumberedAll es = es.map Expr.unnumbered := by
  induction es with
  | nil => simp [Expr.unnumberedAll]
  | cons e es ih => simp [Expr.unnumberedAll, ih]

theorem Subquery.unnumbered_select (item : Expr) (table label : String) (joins : List Join)
    (conditions groupBy having : List Expr) :
    (Subquery.select item table label joins conditions groupBy having).unnumbered =
      (Subquery.select item.unnumbered table label joins (conditions.map Expr.unnumbered)
        (groupBy.map Expr.unnumbered) (having.map Expr.unnumbered)).relabel (rebase label (bareLabel label)) := by
  simp only [Subquery.unnumbered, Expr.unnumberedAll_eq_map]

theorem structural_unnumbered : Structural Expr.unnumbered :=
  ⟨fun a b => by simp only [Expr.unnumbered], fun a n => by simp only [Expr.unnumbered]⟩

@[simp] theorem Expr.unnumbered_col (source name : String) :
    (Expr.col source name).unnumbered = Expr.col source name := by
  simp only [Expr.col, Expr.unnumbered]

theorem testable_unnumbered : Testable (fun e => e.unnumbered = e) fun e => e.unnumbered = e where
  lower := fun e he => by simp only [Expr.unnumbered, he]
  compare := fun op e v he => by simp only [Expr.unnumbered, he]
  between := fun e v w he => by simp only [Expr.unnumbered, he]
  like := fun e pattern he => by simp only [Expr.unnumbered, he]
  among := fun e vs he => by simp only [Expr.unnumbered, he]
  isNull := fun e he => by simp only [Expr.unnumbered, he]
  not := fun e he => by simp only [Expr.unnumbered, he]
  or := fun a b ha hb => by simp only [Expr.unnumbered, ha, hb]

/-! ## Joins and operands that were there already -/

namespace Scope

/-- Joins that were added to another scope first are added as they are: those left out there are there already. -/
theorem addJoins_joins_addJoins (s t : Scope) (js : List KeyedJoin) :
    s.addJoins (t.addJoins js).joins = (s.addJoins t.joins).addJoins js := by
  have one : ∀ (t : Scope) (j : KeyedJoin), s.addJoins (t.addJoin j).joins = (s.addJoins t.joins).addJoin j := by
    intro t j
    by_cases hkey : j.key ∈ t.joins.map KeyedJoin.key
    · obtain ⟨k, hk, hkj⟩ := List.mem_map.1 hkey
      have hthere := key_mem_addJoins (s := s) hk
      rw [hkj] at hthere
      rw [addJoin_of_mem hkey, addJoin_of_mem hthere]
    · rw [addJoin_of_notMem hkey]
      unfold addJoins
      rw [List.foldl_append]
      rfl
  induction js generalizing t with
  | nil => rfl
  | cons j js ih =>
    have hfirst : ∀ u : Scope, u.addJoins (j :: js) = (u.addJoin j).addJoins js := fun _ => rfl
    rw [hfirst, hfirst, ih, one]

section
variable {s : Scope} (hs : s.fields = [])
include hs

theorem resolveMarked_fresh (mark : String → String) (path : String) :
    s.resolveMarked mark path =
      (s.addJoins (s.base.resolveMarked mark path).1.joins, (s.base.resolveMarked mark path).2) := by
  have hbare : ∀ js, s.addJoins (s.base.addJoins js).joins = s.addJoins js := addJoins_joins_addJoins s s.base
  have hfield : ∀ name, s.base.field? name = none := fun _ => rfl
  unfold resolveMarked
  rw [field?_of_fields_eq_nil hs, hfield, terminal_base]
  cases s.terminal path with
  | error e => rfl
  | ok a =>
    simp only [resolve, field?_of_fields_eq_nil hs, hfield, trace_base, hbare]

end

end Scope

theorem values_nameOperands (field : String) : ∀ (n : Nat) (vs : List Value),
    (nameOperands field n vs).map Parameter.value = vs
  | _, [] => rfl
  | n, v :: vs => congrArg (v :: ·) (values_nameOperands field (n + 1) vs)

theorem bindOperands_values (ps : List Parameter) (field : String) (vs : List Value) :
    bindOperands ps field ((bindOperands [] field vs).map Parameter.value) = bindOperands ps field vs := by
  simp only [bindOperands, List.nil_append, values_nameOperands]

theorem bindOperands_nil (ps : List Parameter) (field : String) : bindOperands ps field [] = ps := List.append_nil ps

/-! ## Compiling -/

def Predicate.unnumbered (p : Predicate) : Predicate := p.map Expr.unnumbered

section
variable {s : Scope} (hs : s.fields = [])
include hs

theorem compileOnTerm_fresh (field : String) (c : Criterion) (ps : List Parameter) :
    compileOnTerm s field c ps =
      ⟨s.addJoins (compileOnTerm s.base field c []).scope.joins,
        bindOperands ps field ((compileOnTerm s.base field c []).parameters.map Parameter.value),
        (compileOnTerm s.base field c []).outcome⟩ := by
  unfold compileOnTerm Scope.filterTarget
  rw [Scope.resolveMarked_fresh hs]
  rcases s.base.resolveMarked membershipPath field with ⟨b, e | t⟩
  · exact congrArg (Compiled.mk _ · _) (bindOperands_nil ps field).symm
  · exact congrArg (Compiled.mk _ · _) (bindOperands_values ps field _).symm

theorem unnumbered_compileOnTerm {field : String} {c : Criterion} {ps : List Parameter} {p : Predicate}
    (h : (compileOnTerm s field c ps).outcome = .ok p) : p.unnumbered = p := by
  obtain ⟨t, b, htarget, hb, rfl⟩ := compileOnTerm_ok h
  obtain ⟨a, -, -, htrace⟩ := Scope.resolveMarked_ok hs (by rw [← Scope.filterTarget, htarget])
  obtain ⟨-, l, column, hexpr, -⟩ := (Scope.trace_made s _).2 t htrace
  have hcol : t.expr.unnumbered = t.expr := by
    rw [hexpr]
    exact Expr.unnumbered_col l column
  have hexprs := Criterion.build_yields testable_unnumbered hcol c b hb
  obtain ⟨e, wanted⟩ := b
  simp only [Predicate.unnumbered, Predicate.map, predicateOf, hexprs, Option.map_map, Function.comp_def, hcol]

end

/-! ### Negations -/

def Scope.bare (s : Scope) : Scope := new s.catalog s.root (s.label ++ "_sub")

def Scope.unnumber (s : Scope) : String → String := rebase s.detached.label s.bare.label

theorem Scope.detached_unnumber (s : Scope) : s.detached.relabel s.unnumber = s.bare := by
  have hlabel : s.unnumber s.detached.label = s.bare.label := rebase_self _ _
  unfold Scope.detached at hlabel ⊢
  rw [← new_relabel]
  exact congrArg (new s.catalog s.root) hlabel

theorem compileOnTerm_bare (s : Scope) (field : String) (c : Criterion) (ps : List Parameter) :
    compileOnTerm s.bare field c ps = (compileOnTerm s.detached field c ps).relabel s.unnumber := by
  rw [← s.detached_unnumber]
  exact compileOnTerm_relabel (keepsBehind_rebase _ _) field c ps

theorem nonexistence_congr {outer outer' : Scope} (h : outer.identity = outer'.identity) (inner : Scope)
    (p : Predicate) : nonexistence outer inner p = nonexistence outer' inner p := by
  unfold nonexistence
  rw [h]

theorem Scope.identity_unnumber (s : Scope) : (s.relabel s.unnumber).identity = s.identity := by
  have hlength : s.label.length < s.detached.label.length := by
    have hsub : ("_sub" : String).length = 4 := rfl
    show s.label.length < (s.label ++ "_sub" ++ toString s.subqueries).length
    rw [String.length_append, String.length_append]
    omega
  have hlabel : s.unnumber s.label = s.label := by
    rcases rebase_cases s.detached.label s.bare.label s.label with ⟨hself, -⟩ | ⟨x, hbehind, -⟩ | ⟨-, -, h⟩
    · rw [← hself] at hlength
      omega
    · have hlonger := congrArg String.length hbehind
      rw [String.length_append, String.length_append] at hlonger
      omega
    · exact h
  unfold identity
  rw [show (s.relabel s.unnumber).label = s.label from hlabel]
  rfl

theorem unnumbered_nonexistence {s inner : Scope} {p : Predicate} (hinner : inner.label = s.detached.label)
    (hp : p.unnumbered = p) :
    (nonexistence s inner p).unnumbered = nonexistence s (inner.relabel s.unnumber) (p.relabel s.unnumber) := by
  have hlast : (s.label ++ "_sub").toList.getLast? = some 'b' := by simp [String.toList_append]
  have hbare : bareLabel s.detached.label = s.bare.label := bareLabel_numbered hlast (by decide) s.subqueries
  have hexpr : p.expr.unnumbered = p.expr := congrArg Predicate.expr hp
  have hcount : p.countTest.map Expr.unnumbered = p.countTest := by
    rw [← countTest_map structural_unnumbered]
    exact congrArg Predicate.countTest hp
  rw [← nonexistence_congr s.identity_unnumber (inner.relabel s.unnumber), nonexistence_relabel]
  unfold nonexistence
  cases h : p.countTest with
  | none =>
    simp [Expr.unnumbered, Expr.relabel, Scope.correlated, Subquery.unnumbered_select, Subquery.relabel_select, hexpr,
      hbare, hinner, Expr.eq, Scope.identity, Scope.unnumber]
  | some count =>
    rw [h] at hcount
    simp only [Option.map_some, Option.some.injEq] at hcount
    simp [Expr.unnumbered, Expr.relabel, Scope.correlated, Subquery.unnumbered_select, Subquery.relabel_select, hexpr,
      hbare, hinner, hcount, Expr.eq, Scope.identity, Scope.unnumber]

/-! ### Any criterion -/

/-- A compilation in a scope is another one, of an empty scope, on top of what is there: its joins and operands are
added, and its outcome is the same up to the numbers of subqueries. -/
structure Compiled.OnTop (s : Scope) (field : String) (ps : List Parameter) (a b : Compiled) : Prop where
  joins : a.scope.joins = (s.addJoins b.scope.joins).joins
  parameters : a.parameters = bindOperands ps field (b.parameters.map Parameter.value)
  outcome : a.outcome.map Predicate.unnumbered = b.outcome.map Predicate.unnumbered

section
variable {s : Scope} (hs : s.fields = [])
include hs

theorem onTop_compileOnTerm {b : Scope} (hbase : b.base = s.base) (hfields : b.fields = []) (hjoins : b.joins = [])
    (field : String) (c : Criterion) (ps : List Parameter) :
    (compileOnTerm s field c ps).OnTop s field ps (compileOnTerm b field c []) := by
  have hfirst : s.addJoins b.joins = s := by
    rw [hjoins]
    rfl
  rw [compileOnTerm_fresh hs, compileOnTerm_fresh hfields, hbase]
  refine ⟨?_, (bindOperands_values ps field _).symm, rfl⟩
  rw [Scope.addJoins_joins_addJoins, hfirst]

omit hs in
theorem compileOnTerm_detached (s : Scope) (field : String) (c : Criterion) (ps : List Parameter) :
    (compileOnTerm s.detached field c ps).relabel s.unnumber =
      ⟨(compileOnTerm s.bare field c []).scope,
        bindOperands ps field ((compileOnTerm s.bare field c []).parameters.map Parameter.value),
        (compileOnTerm s.bare field c []).outcome⟩ := by
  have hscope := congrArg Compiled.scope (compileOnTerm_fresh (s := s.bare) rfl field c [])
  rw [← compileOnTerm_bare, compileOnTerm_fresh (s := s.bare) rfl]
  exact congrArg (Compiled.mk · _ _) hscope.symm

/-- **Compiling a criterion in any scope** is compiling it before anything was resolved, on top of what is there. -/
theorem onTop_compile (field : String) (c : Criterion) (ps : List Parameter) :
    (compile s field c ps).OnTop s field ps (compile s.base field c []) := by
  cases c with
  | null | value | alternatives | numeric | enumerated | boolean | textMatch =>
    exact onTop_compileOnTerm (b := s.base) hs rfl rfl rfl field _ ps
  | negation inner =>
    have hnone : (s.field? field).isSome = false := by rw [Scope.field?_of_fields_eq_nil hs]; rfl
    have hnone' : (s.base.field? field).isSome = false := rfl
    have hopened := onTop_compileOnTerm (s := s.opened) (b := s.base.opened) hs rfl rfl rfl field (.negation inner) ps
    -- the two subqueries have labels of other numbers and are the same under the label without one
    have hs' := compileOnTerm_detached s field inner ps
    have hbase := compileOnTerm_detached s.base field inner []
    have hlabel := (grows_compileOnTerm s.detached field inner ps).label
    have hlabel' := (grows_compileOnTerm s.base.detached field inner []).label
    have hplain : ∀ p, (compileOnTerm s.detached field inner ps).outcome = .ok p → p.unnumbered = p := fun p hp =>
      unnumbered_compileOnTerm (s := s.detached) rfl hp
    have hplain' : ∀ p, (compileOnTerm s.base.detached field inner []).outcome = .ok p → p.unnumbered = p :=
      fun p hp => unnumbered_compileOnTerm (s := s.base.detached) rfl hp
    rw [show s.base.bare = s.bare from rfl] at hbase
    unfold compile
    simp only [hnone, hnone', Bool.false_eq_true, if_false]
    generalize compileOnTerm s.detached field inner ps = a at *
    generalize compileOnTerm s.base.detached field inner [] = b at *
    generalize compileOnTerm s.bare field inner [] = c at *
    obtain ⟨sa, pa, oa⟩ := a
    obtain ⟨sb, pb, ob⟩ := b
    obtain ⟨sc, pc, oc⟩ := c
    simp only [Compiled.relabel, Compiled.mk.injEq] at hs' hbase
    obtain ⟨hsa, rfl, hoa⟩ := hs'
    obtain ⟨hsb, rfl, hob⟩ := hbase
    rw [← hob] at hoa
    cases oa with
    | error e =>
      cases ob with
      | error e' =>
        cases hoa
        exact ⟨rfl, (bindOperands_nil ps field).symm, rfl⟩
      | ok q => cases hoa
    | ok p =>
      cases ob with
      | error e' => cases hoa
      | ok q =>
        have hpredicate : p.relabel s.unnumber = q.relabel s.base.unnumber := Except.ok.inj hoa
        have hmany : sa.hasToManyJoins = sb.hasToManyJoins := by
          rw [← Scope.hasToManyJoins_relabel (f := s.unnumber), hsa, ← hsb, Scope.hasToManyJoins_relabel]
        have hexpr : (nonexistence s sa p).unnumbered = (nonexistence s.base sb q).unnumbered := by
          rw [unnumbered_nonexistence hlabel (hplain p rfl), unnumbered_nonexistence hlabel' (hplain' q rfl), hsa, hsb,
            hpredicate]
          exact nonexistence_congr rfl _ _
        simp only [hmany]
        split
        · refine ⟨rfl, (bindOperands_values ps field _).symm, ?_⟩
          simp only [Except.map, Predicate.unnumbered, Predicate.map, hexpr]
        · have hjoins : s.opened.joins = s.joins := rfl
          exact ⟨hopened.joins.trans (Scope.joins_addJoins_congr hjoins _), hopened.parameters, hopened.outcome⟩

end

end PageQuery
