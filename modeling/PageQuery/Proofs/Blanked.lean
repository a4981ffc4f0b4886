import PageQuery.Proofs.Relabel
/-!
# Statements without their values

Where values are bound, the text of a statement shows marks in their place.  So it is the text of the statement that has
one and the same value everywhere: statements that differ in their values alone have one text, for every backend.
-/
namespace PageQuery

def Value.blank : Value := .text ""

def Token.blank : Token → Token
  | .value _ => .value Value.blank
  | .word s => .word s
  | .name s => .name s
  | .fixed s => .fixed s

theorem Token.blank_blank (t : Token) : t.blank.blank = t.blank := by
  cases t <;> rfl

/-- **Marks do not show values.** -/
theorem boundTextFrom_blank (b : Backend) : ∀ (ts : List Token) (n : Nat),
    boundTextFrom b n (ts.map Token.blank) = boundTextFrom b n ts
  | [], _ => rfl
  | .word s :: ts, n => congrArg (s ++ ·) (boundTextFrom_blank b ts n)
  | .name s :: ts, n => congrArg (b.quoteName s ++ ·) (boundTextFrom_blank b ts n)
  | .value _ :: ts, n => congrArg (b.placeholder (n + 1) ++ ·) (boundTextFrom_blank b ts (n + 1))
  | .fixed s :: ts, n => congrArg (b.quoteText s ++ ·) (boundTextFrom_blank b ts n)

/-! ## Expressions -/

mutual

/-- The expression with every value in it and in its subqueries replaced, patterns included. -/
def Expr.blank : Expr → Expr
  | .column c => .column c
  | .value _ => .value Value.blank
  | .call f a => .call f a.blank
  | .compare op a b => .compare op a.blank b.blank
  | .isNull a => .isNull a.blank
  | .isNotNull a => .isNotNull a.blank
  | .between a low high => .between a.blank low.blank high.blank
  | .inValues a vs => .inValues a.blank (vs.map fun _ => Value.blank)
  | .inQuery a q => .inQuery a.blank q.blank
  | .like a _ => .like a.blank ""
  | .not a => .not a.blank
  | .and a b => .and a.blank b.blank
  | .or a b => .or a.blank b.blank
  | .nonempty q => .nonempty q.blank
  | .scalar q => .scalar q.blank

def Expr.blankAll : List Expr → List Expr
  | [] => []
  | e :: es => e.blank :: Expr.blankAll es

def Subquery.blank : Subquery → Subquery
  | .select item table label joins conditions groupBy having =>
    .select item.blank table label joins (Expr.blankAll conditions) (Expr.blankAll groupBy) (Expr.blankAll having)

end

theorem Expr.blankAll_eq_map (es : List Expr) : Expr.blankAll es = es.map Expr.blank := by
  induction es with
  | nil => simp [Expr.blankAll]
  | cons e es ih => simp [Expr.blankAll, ih]

theorem Subquery.blank_select (item : Expr) (table label : String) (joins : List Join)
    (conditions groupBy having : List Expr) :
    (Subquery.select item table label joins conditions groupBy having).blank =
      .select item.blank table label joins (conditions.map Expr.blank) (groupBy.map Expr.blank)
        (having.map Expr.blank) := by
  simp only [Subquery.blank, Expr.blankAll_eq_map]

section
variable (f : String → String)

mutual

theorem Expr.blank_relabel : ∀ e : Expr, (e.relabel f).blank = e.blank.relabel f
  | .column _ | .value _ => by simp only [Expr.relabel, Expr.blank]
  | .call _ a | .isNull a | .isNotNull a | .inValues a _ | .like a _ | .not a => by
    simp only [Expr.relabel, Expr.blank, Expr.blank_relabel a]
  | .compare _ a b | .and a b | .or a b => by
    simp only [Expr.relabel, Expr.blank, Expr.blank_relabel a, Expr.blank_relabel b]
  | .between a low high => by
    simp only [Expr.relabel, Expr.blank, Expr.blank_relabel a, Expr.blank_relabel low, Expr.blank_relabel high]
  | .inQuery a q => by simp only [Expr.relabel, Expr.blank, Expr.blank_relabel a, Subquery.blank_relabel q]
  | .nonempty q | .scalar q => by simp only [Expr.relabel, Expr.blank, Subquery.blank_relabel q]

theorem Expr.blankAll_relabel : ∀ es : List Expr,
    Expr.blankAll (Expr.relabelAll f es) = Expr.relabelAll f (Expr.blankAll es)
  | [] => by simp only [Expr.relabelAll, Expr.blankAll]
  | e :: es => by simp only [Expr.relabelAll, Expr.blankAll, Expr.blank_relabel e, Expr.blankAll_relabel es]

theorem Subquery.blank_relabel : ∀ q : Subquery, (q.relabel f).blank = q.blank.relabel f
  | .select item _ _ _ conditions groupBy having => by
    simp only [Subquery.relabel, Subquery.blank, Expr.blank_relabel item, Expr.blankAll_relabel conditions,
      Expr.blankAll_relabel groupBy, Expr.blankAll_relabel having]

end

end

/-! ## Tokens -/

theorem needsParens_blank (p : Place) (e : Expr) : e.blank.needsParens p = e.needsParens p := by
  cases e <;> simp only [Expr.blank, Expr.needsParens]

theorem placed_blank (p : Place) (e : Expr) (ts : List Token) :
    placed p e.blank (ts.map Token.blank) = (placed p e ts).map Token.blank := by
  unfold placed
  rw [needsParens_blank]
  split
  · simp [inParens, Token.blank]
  · rfl

theorem separated_blank (word : String) : ∀ tss : List (List Token),
    separated word (tss.map (List.map Token.blank)) = (separated word tss).map Token.blank
  | [] => rfl
  | [ts] => rfl
  | ts :: us :: tss => by
    have hrest := separated_blank word (us :: tss)
    simp only [List.map_cons] at hrest
    simp only [List.map_cons, separated, hrest, List.map_append, Token.blank, List.map_nil]

theorem conjunctTokens_blank (es : List Expr) (tss : List (List Token)) :
    conjunctTokens (Expr.blankAll es) (tss.map (List.map Token.blank)) = (conjunctTokens es tss).map Token.blank := by
  rw [Expr.blankAll_eq_map]
  have hplaced : ∀ (es : List Expr) (tss : List (List Token)),
      List.zipWith (placed .rightOfAnd) (es.map Expr.blank) (tss.map (List.map Token.blank)) =
        (List.zipWith (placed .rightOfAnd) es tss).map (List.map Token.blank) := by
    intro es tss
    rw [List.zipWith_map, List.map_zipWith]
    exact congrArg (fun g => List.zipWith g es tss) (funext₂ fun e ts => placed_blank .rightOfAnd e ts)
  have hseveral : ∀ (e : Expr) (es : List Expr) (ts : List Token) (tss : List (List Token)),
      separated " AND " (placed .leftOfAnd e.blank (ts.map Token.blank) ::
          List.zipWith (placed .rightOfAnd) (es.map Expr.blank) (tss.map (List.map Token.blank))) =
        (separated " AND " (placed .leftOfAnd e ts :: List.zipWith (placed .rightOfAnd) es tss)).map Token.blank := by
    intro e es ts tss
    rw [placed_blank, hplaced, ← List.map_cons, separated_blank]
  match es, tss with
  | [_], [_] => rfl
  | [], _ | [_], [] | _ :: _ :: _, [] => rfl
  | [e], ts :: us :: tss => exact hseveral e [] ts (us :: tss)
  | e :: f :: es, ts :: tss => exact hseveral e (f :: es) ts tss

theorem clause_blank (word : String) (ts : List Token) :
    clause word (ts.map Token.blank) = (clause word ts).map Token.blank := by
  unfold clause
  rw [List.isEmpty_map]
  split
  · rfl
  · simp [Token.blank]

theorem sourceTokens_blank (table label : String) (joins : List Join) (conditions groupBy having : List Token) :
    (sourceTokens table label joins conditions groupBy having).map Token.blank =
      sourceTokens table label joins (conditions.map Token.blank) (groupBy.map Token.blank)
        (having.map Token.blank) := by
  have hjoin : ∀ j : Join, j.tokens.map Token.blank = j.tokens := fun _ => rfl
  have hlabelled : (labelledTokens table label).map Token.blank = labelledTokens table label := rfl
  simp only [sourceTokens, List.map_append, List.map_flatMap, hjoin, hlabelled, clause_blank]
  rfl

mutual

theorem Expr.tokens_blank : ∀ e : Expr, e.blank.tokens = e.tokens.map Token.blank
  | .column _ => by
    simp only [Expr.blank, Expr.tokens]
    rfl
  | .value _ => by simp only [Expr.blank, Expr.tokens, List.map_cons, List.map_nil, Token.blank]
  | .call _ a => by
    simp only [Expr.blank, Expr.tokens, Expr.tokens_blank a, List.map_append, List.map_cons, List.map_nil, Token.blank]
  | .compare _ a b | .and a b | .or a b => by
    simp only [Expr.blank, Expr.tokens, Expr.tokens_blank a, Expr.tokens_blank b, placed_blank, List.map_append,
      List.map_cons, List.map_nil, Token.blank]
  | .isNull a | .isNotNull a | .not a => by
    simp only [Expr.blank, Expr.tokens, Expr.tokens_blank a, placed_blank, List.map_append, List.map_cons,
      List.map_nil, Token.blank]
  | .like a _ => by
    simp only [Expr.blank, Expr.tokens, Expr.tokens_blank a, placed_blank, List.map_append, List.map_cons,
      List.map_nil, Token.blank, Value.blank]
  | .between a low high => by
    simp only [Expr.blank, Expr.tokens, Expr.tokens_blank a, Expr.tokens_blank low, Expr.tokens_blank high,
      placed_blank, List.map_append, List.map_cons, List.map_nil, Token.blank]
  | .inValues a vs => by
    have hvalues : (vs.map fun _ => Value.blank).map (fun v => [Token.value v]) =
        (vs.map fun v => [Token.value v]).map (List.map Token.blank) := by
      simp [Token.blank, Function.comp_def]
    simp only [Expr.blank, Expr.tokens, Expr.tokens_blank a, placed_blank, hvalues, separated_blank, List.map_append,
      List.map_cons, List.map_nil, Token.blank]
  | .inQuery a q => by
    simp only [Expr.blank, Expr.tokens, Expr.tokens_blank a, Subquery.tokens_blank q, placed_blank, List.map_append,
      List.map_cons, List.map_nil, Token.blank]
  | .nonempty q | .scalar q => by
    simp only [Expr.blank, Expr.tokens, Subquery.tokens_blank q, List.map_append, List.map_cons, List.map_nil,
      Token.blank]

theorem Expr.tokensAll_blank : ∀ es : List Expr,
    Expr.tokensAll (Expr.blankAll es) = (Expr.tokensAll es).map (List.map Token.blank)
  | [] => by simp only [Expr.blankAll, Expr.tokensAll, List.map_nil]
  | e :: es => by
    simp only [Expr.blankAll, Expr.tokensAll, Expr.tokens_blank e, Expr.tokensAll_blank es, List.map_cons]

theorem Subquery.tokens_blank : ∀ q : Subquery, q.blank.tokens = q.tokens.map Token.blank
  | .select item _ _ _ conditions groupBy having => by
    simp only [Subquery.blank, Subquery.tokens, Expr.tokens_blank item, Expr.tokensAll_blank conditions,
      Expr.tokensAll_blank groupBy, Expr.tokensAll_blank having, conjunctTokens_blank, separated_blank,
      List.map_append, sourceTokens_blank, List.map_cons, List.map_nil, Token.blank]

end

/-! ## Statements -/

def Statement.blank (s : Statement) : Statement :=
  { s with conditions := s.conditions.map Expr.blank, having := s.having.map Expr.blank }

theorem Statement.tokens_blank (s : Statement) : s.blank.tokens.map Token.blank = s.tokens.map Token.blank := by
  have hconjuncts : ∀ es : List Expr,
      (conjunctTokens (es.map Expr.blank) (Expr.tokensAll (es.map Expr.blank))).map Token.blank =
        (conjunctTokens es (Expr.tokensAll es)).map Token.blank := fun es => by
    rw [← Expr.blankAll_eq_map, Expr.tokensAll_blank, conjunctTokens_blank, List.map_map]
    exact List.map_congr_left fun t _ => Token.blank_blank t
  simp only [Statement.tokens, Statement.blank, List.map_append, sourceTokens_blank, hconjuncts]
  rfl

/-- **The text with marks for values does not depend on the values.** -/
theorem Statement.boundText_blank (b : Backend) (s : Statement) : s.blank.boundText b = s.boundText b := by
  unfold Statement.boundText
  rw [← boundTextFrom_blank b s.blank.tokens, Statement.tokens_blank, boundTextFrom_blank]

end PageQuery
