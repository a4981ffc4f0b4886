import PageQuery.Sql.Statement
import PageQuery.Sql.Backend
/-!
# The text of statements

A statement is written as tokens first, the same for every backend: words, names to be quoted,
values, and text that is never bound.  The tokens become text in two ways, with the values written
out or with marks in their place; the values bound are those of the tokens, in order.
-/
namespace PageQuery

inductive Token where
  | word (s : String)
  | name (s : String)
  | value (v : Value)
  /-- A text written out even where values are bound. -/
  | fixed (s : String)
  deriving DecidableEq, Repr

/-! ## Parentheses -/

inductive Place where
  | negated
  | leftOfOr
  | rightOfOr
  /-- Left of AND, also as the first of several conjuncts. -/
  | leftOfAnd
  /-- Right of AND, also as a further one of several conjuncts. -/
  | rightOfAnd
  /-- An operand of any other operator. -/
  | operand
  deriving DecidableEq, Repr

/-- Whether an expression at a place stands in parentheses.  Columns, values, calls and
subqueries never do; comparisons only as operands of other operators; a disjunction not on the
left of another, nor a conjunction on the left of another; all else always. -/
def Expr.needsParens (p : Place) : Expr → Bool
  | .column _ | .value _ | .call _ _ | .nonempty _ | .scalar _ => false
  | .compare _ _ _ | .isNull _ | .isNotNull _ | .inValues _ _ | .inQuery _ _ | .like _ _ =>
    p == .operand
  | .and _ _ => p != .leftOfAnd
  | .or _ _ => p != .leftOfOr
  | .between _ _ _ | .not _ => true

def inParens (ts : List Token) : List Token := [.word "("] ++ ts ++ [.word ")"]

def placed (p : Place) (e : Expr) (ts : List Token) : List Token :=
  if e.needsParens p then inParens ts else ts

/-! ## Tokens -/

def separated (word : String) : List (List Token) → List Token
  | [] => []
  | [ts] => ts
  | ts :: rest => ts ++ [.word word] ++ separated word rest

def Column.tokens (c : Column) : List Token := [.name c.source, .word ".", .name c.name]

def labelledTokens (table label : String) : List Token := [.name table, .word " AS ", .name label]

def Join.tokens (j : Join) : List Token :=
  [.word " LEFT JOIN "] ++ labelledTokens j.table j.label ++ [.word " ON "] ++
    Column.tokens ⟨j.label, j.column⟩ ++ [.word " = "] ++ j.owner.tokens

def Function.opening : Function → String
  | .lower => "LOWER("
  | .count => "COUNT("
  | .countDistinct => "COUNT(DISTINCT "
  | .sum => "SUM("
  | .avg => "AVG("
  | .min => "MIN("
  | .max => "MAX("

def Comparison.word : Comparison → String
  | .eq => " = "
  | .ne => " <> "
  | .lt => " < "
  | .le => " <= "
  | .gt => " > "
  | .ge => " >= "

/-- Conjuncts, given with their tokens: one stands alone, several are joined from the left. -/
def conjunctTokens (es : List Expr) (tokens : List (List Token)) : List Token :=
  match es, tokens with
  | [_], [ts] => ts
  | e :: es, ts :: rest =>
    separated " AND " (placed .leftOfAnd e ts :: List.zipWith (placed .rightOfAnd) es rest)
  | _, _ => []

def clause (word : String) (ts : List Token) : List Token :=
  if ts.isEmpty then [] else [.word word] ++ ts

def sourceTokens (table label : String) (joins : List Join)
    (conditions groupBy having : List Token) : List Token :=
  [.word " FROM "] ++ labelledTokens table label ++ joins.flatMap Join.tokens ++
    clause " WHERE " conditions ++ clause " GROUP BY " groupBy ++ clause " HAVING " having

mutual

def Expr.tokens : Expr → List Token
  | .column c => c.tokens
  | .value v => [.value v]
  | .call f arg => [.word f.opening] ++ arg.tokens ++ [.word ")"]
  | .compare op left right =>
    placed .operand left left.tokens ++ [.word op.word] ++ placed .operand right right.tokens
  | .isNull e => placed .operand e e.tokens ++ [.word " IS NULL"]
  | .isNotNull e => placed .operand e e.tokens ++ [.word " IS NOT NULL"]
  | .between e low high =>
    placed .operand e e.tokens ++ [.word " BETWEEN "] ++ placed .operand low low.tokens ++
      [.word " AND "] ++ placed .operand high high.tokens
  | .inValues e values =>
    placed .operand e e.tokens ++ [.word " IN ("] ++
      separated ", " (values.map fun v => [.value v]) ++ [.word ")"]
  | .inQuery e query => placed .operand e e.tokens ++ [.word " IN ("] ++ query.tokens ++ [.word ")"]
  | .like e pattern =>
    placed .operand e e.tokens ++
      [.word " LIKE ", .value (.text pattern), .word " ESCAPE ", .fixed "\\"]
  | .not e => [.word "NOT "] ++ placed .negated e e.tokens
  | .and left right =>
    placed .leftOfAnd left left.tokens ++ [.word " AND "] ++ placed .rightOfAnd right right.tokens
  | .or left right =>
    placed .leftOfOr left left.tokens ++ [.word " OR "] ++ placed .rightOfOr right right.tokens
  | .nonempty query => [.word "EXISTS("] ++ query.tokens ++ [.word ")"]
  | .scalar query => [.word "("] ++ query.tokens ++ [.word ")"]

def Expr.tokensAll : List Expr → List (List Token)
  | [] => []
  | e :: es => e.tokens :: Expr.tokensAll es

def Subquery.tokens : Subquery → List Token
  | .select item table label joins conditions groupBy having =>
    [.word "SELECT "] ++ item.tokens ++
      sourceTokens table label joins (conjunctTokens conditions (Expr.tokensAll conditions))
        (separated ", " (Expr.tokensAll groupBy)) (conjunctTokens having (Expr.tokensAll having))

end

def Item.tokens (i : Item) : List Token :=
  match i.name with
  | none => i.expr.tokens
  | some name => i.expr.tokens ++ [.word " AS ", .name name]

def SortKey.tokens (k : SortKey) : List Token :=
  k.expr.tokens ++ [.word (if k.ascending then " ASC" else " DESC")]

def rangeTokens (word : String) : Option UInt64 → List Token
  | none => []
  | some n => [.word word, .value (.uint64 n)]

def Statement.tokens (s : Statement) : List Token :=
  [.word (if s.distinct then "SELECT DISTINCT " else "SELECT ")] ++
    separated ", " (s.items.map Item.tokens) ++
    sourceTokens s.table s.label s.joins
      (conjunctTokens s.conditions (Expr.tokensAll s.conditions))
      (separated ", " (Expr.tokensAll s.groupBy)) (conjunctTokens s.having (Expr.tokensAll s.having)) ++
    clause " ORDER BY " (separated ", " (s.orderBy.map SortKey.tokens)) ++
    rangeTokens " LIMIT " s.limit ++ rangeTokens " OFFSET " s.offset

/-! ## Text -/

def inlineText (b : Backend) : List Token → String
  | [] => ""
  | .word s :: ts => s ++ inlineText b ts
  | .name s :: ts => b.quoteName s ++ inlineText b ts
  | .value v :: ts => b.valueText v ++ inlineText b ts
  | .fixed s :: ts => b.quoteText s ++ inlineText b ts

/-- Tokens with a mark for every value, `n` marks standing before them. -/
def boundTextFrom (b : Backend) : Nat → List Token → String
  | _, [] => ""
  | n, .word s :: ts => s ++ boundTextFrom b n ts
  | n, .name s :: ts => b.quoteName s ++ boundTextFrom b n ts
  | n, .value _ :: ts => b.placeholder (n + 1) ++ boundTextFrom b (n + 1) ts
  | n, .fixed s :: ts => b.quoteText s ++ boundTextFrom b n ts

def boundValues : List Token → List Value
  | [] => []
  | .value v :: ts => v :: boundValues ts
  | _ :: ts => boundValues ts

theorem boundValues_append :
    ∀ xs ys : List Token, boundValues (xs ++ ys) = boundValues xs ++ boundValues ys
  | [], _ => rfl
  | .word _ :: xs, ys => boundValues_append xs ys
  | .name _ :: xs, ys => boundValues_append xs ys
  | .value v :: xs, ys => congrArg (v :: ·) (boundValues_append xs ys)
  | .fixed _ :: xs, ys => boundValues_append xs ys

def Expr.text (b : Backend) (e : Expr) : String := inlineText b e.tokens

namespace Statement

def text (b : Backend) (s : Statement) : String := inlineText b s.tokens

def boundText (b : Backend) (s : Statement) : String := boundTextFrom b 0 s.tokens

def values (s : Statement) : List Value := boundValues s.tokens

end Statement
end PageQuery
