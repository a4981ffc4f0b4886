import PageQuery.Sql.Token
/-!
# Texts by the rules of SQLite

A text is read character by character, as SQLite reads it: a quotation ends at its first quote that is not doubled, a
doubled one stands for one, and neither a quote in a comment nor the sign of a comment in a quotation counts.  Quoting
doubles the quotes, so what is quoted is read as it was, whatever it is; and as all else in a statement is free of
quotes and of the signs of comments, the text of a statement leaves nothing open.
-/
namespace PageQuery

/-! ## Reading a text -/

/-- What a text consists of, apart from blanks and comments.  A word is a keyword, a name without quotes or a number. -/
inductive Lexeme where
  | word (s : String)
  | text (s : String)
  | name (s : String)
  | mark (c : Char)
  /-- A quotation without an end. -/
  | unclosed
  deriving DecidableEq, Repr

inductive Quote where
  | single
  | double
  | grave
  deriving DecidableEq, Repr

namespace Quote

def char : Quote → Char
  | single => '\''
  | double => '"'
  | grave => '\x60'

def lexeme : Quote → String → Lexeme
  | single => .text
  | double | grave => .name

end Quote

/-- Where a reader stands.  What it has read of a word or of a quotation comes last character first. -/
inductive Reading where
  | between
  | inWord (read : List Char)
  | inQuotes (q : Quote) (read : List Char)
  /-- At a quote, the last one unless it is doubled. -/
  | atQuote (q : Quote) (read : List Char)
  | inBrackets (read : List Char)
  | atBracket (read : List Char)
  /-- At a mark, unless the next one makes a comment of it. -/
  | atMark (c : Char)
  | inLine
  | inBlock
  | atStar
  deriving DecidableEq, Repr

namespace Reading

def isSpace (c : Char) : Bool := c == ' ' || c == '\t' || c == '\n' || c == '\x0c' || c == '\r'

def isWordChar (c : Char) : Bool := c.isAlphanum || c == '_' || c == '$' || 0x80 ≤ c.toNat

def start (c : Char) : Reading :=
  if c = Quote.single.char then .inQuotes .single []
  else if c = Quote.double.char then .inQuotes .double []
  else if c = Quote.grave.char then .inQuotes .grave []
  else if c = '[' then .inBrackets []
  else if isSpace c then .between
  else if isWordChar c then .inWord [c]
  else .atMark c

def continued? : Reading → Char → Option Reading
  | .between, _ => none
  | .inWord read, c => if isWordChar c then some (.inWord (c :: read)) else none
  | .inQuotes q read, c => if c = q.char then some (.atQuote q read) else some (.inQuotes q (c :: read))
  | .atQuote q read, c => if c = q.char then some (.inQuotes q (c :: read)) else none
  | .inBrackets read, c => if c = ']' then some (.atBracket read) else some (.inBrackets (c :: read))
  | .atBracket _, _ => none
  | .atMark m, c => if m = '-' ∧ c = '-' then some .inLine else if m = '/' ∧ c = '*' then some .inBlock else none
  | .inLine, c => if c = '\n' then some .between else some .inLine
  | .inBlock, c => if c = '*' then some .atStar else some .inBlock
  | .atStar, c => if c = '/' then some .between else if c = '*' then some .atStar else some .inBlock

def ended : Reading → List Lexeme
  | .between | .inLine | .inBlock | .atStar => []
  | .inWord read => [.word (String.ofList read.reverse)]
  | .inQuotes _ _ | .inBrackets _ => [.unclosed]
  | .atQuote q read => [q.lexeme (String.ofList read.reverse)]
  | .atBracket read => [.name (String.ofList read.reverse)]
  | .atMark c => [.mark c]

def lexemes : Reading → List Char → List Lexeme
  | r, [] => r.ended
  | r, c :: cs =>
    match r.continued? c with
    | some r' => r'.lexemes cs
    | none => r.ended ++ (start c).lexemes cs

def next (r : Reading) (c : Char) : Reading := (r.continued? c).getD (start c)

def isFree : Reading → Bool
  | .between | .inWord _ | .atQuote _ _ | .atBracket _ | .atMark _ => true
  | .inQuotes _ _ | .inBrackets _ | .inLine | .inBlock | .atStar => false

end Reading

def lexemes (s : String) : List Lexeme := Reading.between.lexemes s.toList

/-- The text leaves no quotation and no comment open. -/
def Closed (s : String) : Prop := (s.toList.foldl Reading.next .between).isFree = true

instance (s : String) : Decidable (Closed s) := inferInstanceAs (Decidable (_ = true))

/-! ## Reading on -/

namespace Reading

theorem lexemes_of_continued {r r' : Reading} {c : Char} (h : r.continued? c = some r') (cs : List Char) :
    r.lexemes (c :: cs) = r'.lexemes cs := by
  rw [lexemes, h]

theorem lexemes_of_ended {r : Reading} {c : Char} (h : r.continued? c = none) (cs : List Char) :
    r.lexemes (c :: cs) = r.ended ++ between.lexemes (c :: cs) := by
  rw [lexemes, h]
  rfl

theorem lexemes_of_goes : ∀ {cs : List Char} {r r' : Reading}, cs.foldlM continued? r = some r' → ∀ rest,
    r.lexemes (cs ++ rest) = r'.lexemes rest
  | [], r, r', h, rest => by
    cases h
    rfl
  | c :: cs, r, r', h, rest => by
    rw [List.foldlM_cons] at h
    obtain ⟨r₁, hc, hcs⟩ := Option.bind_eq_some_iff.1 h
    rw [List.cons_append, lexemes_of_continued hc]
    exact lexemes_of_goes hcs rest

theorem foldl_of_goes : ∀ {cs : List Char} {r r' : Reading}, cs.foldlM continued? r = some r' → cs.foldl next r = r'
  | [], r, r', h => Option.some.inj h
  | c :: cs, r, r', h => by
    rw [List.foldlM_cons] at h
    obtain ⟨r₁, hc, hcs⟩ := Option.bind_eq_some_iff.1 h
    rw [List.foldl_cons, next, hc]
    exact foldl_of_goes hcs

/-- What follows a mark is read by itself, unless the mark may begin a comment. -/
theorem lexemes_atMark {m : Char} (hdash : m ≠ '-') (hslash : m ≠ '/') (cs : List Char) :
    (atMark m).lexemes cs = .mark m :: between.lexemes cs := by
  cases cs with
  | nil => rfl
  | cons c cs =>
    have hnone : (atMark m).continued? c = none := by
      rw [continued?, if_neg fun h => hdash h.1, if_neg fun h => hslash h.1]
    exact lexemes_of_ended hnone cs

def doubled (q : Quote) (cs : List Char) : List Char := cs.flatMap fun c => if c = q.char then [q.char, q.char] else [c]

/-- **Doubled quotes do not end a quotation**; they are read as what was doubled. -/
theorem goes_doubled (q : Quote) : ∀ cs read : List Char,
    (doubled q cs).foldlM continued? (inQuotes q read) = some (inQuotes q (cs.reverse ++ read))
  | [], read => rfl
  | c :: cs, read => by
    have hcs := goes_doubled q cs (c :: read)
    rw [List.reverse_cons, List.append_assoc, List.singleton_append, ← hcs]
    by_cases hc : c = q.char
    · have hquote : (inQuotes q read).continued? q.char = some (atQuote q read) := if_pos rfl
      have hagain : (atQuote q read).continued? q.char = some (inQuotes q (q.char :: read)) := if_pos rfl
      rw [hc]
      simp only [doubled, List.flatMap_cons, if_true, List.cons_append, List.nil_append, List.foldlM_cons, hquote,
        hagain, Option.bind_eq_bind, Option.bind_some]
    · have hchar : (inQuotes q read).continued? c = some (inQuotes q (c :: read)) := if_neg hc
      simp only [doubled, List.flatMap_cons, if_neg hc, List.cons_append, List.nil_append, List.foldlM_cons, hchar,
        Option.bind_eq_bind, Option.bind_some]

/-- **A quotation is read as what was put into it**, where no quote follows. -/
theorem lexemes_quotation (q : Quote) (s : String) {c : Char} (hc : c ≠ q.char) (rest : List Char) :
    (inQuotes q []).lexemes (doubled q s.toList ++ q.char :: c :: rest) =
      q.lexeme s :: between.lexemes (c :: rest) := by
  have hquote : (inQuotes q s.toList.reverse).continued? q.char = some (atQuote q s.toList.reverse) := if_pos rfl
  have hend : (atQuote q s.toList.reverse).continued? c = none := if_neg hc
  rw [lexemes_of_goes (goes_doubled q s.toList []), List.append_nil, lexemes_of_continued hquote, lexemes_of_ended hend]
  simp only [ended, List.reverse_reverse, String.ofList_toList, List.singleton_append]

/-! ## Texts that leave nothing open -/

/-- The character begins neither a quotation nor, behind another one, a comment. -/
def isQuiet (c : Char) : Bool :=
  c != Quote.single.char && c != Quote.double.char && c != Quote.grave.char && c != '[' && c != '-' && c != '*'

section
variable {r : Reading}

theorem isFree_next {c : Char} (hc : isQuiet c = true) (hr : r.isFree = true) : (r.next c).isFree = true := by
  simp only [isQuiet, Bool.and_eq_true, bne_iff_ne] at hc
  obtain ⟨⟨⟨⟨⟨hsingle, hdouble⟩, hgrave⟩, hbracket⟩, hdash⟩, hstar⟩ := hc
  have hstart : (start c).isFree = true := by
    rw [start, if_neg hsingle, if_neg hdouble, if_neg hgrave, if_neg hbracket]
    split
    · rfl
    · split <;> rfl
  have hquote : ∀ q : Quote, c ≠ q.char := fun q => by cases q <;> assumption
  cases r with
  | between | atBracket => exact hstart
  | inWord read =>
    rw [next, continued?]
    split
    · rfl
    · exact hstart
  | atQuote q read =>
    rw [next, continued?, if_neg (hquote q)]
    exact hstart
  | atMark m =>
    rw [next, continued?, if_neg fun h => hdash h.2, if_neg fun h => hstar h.2]
    exact hstart
  | inQuotes | inBrackets | inLine | inBlock | atStar => cases hr

theorem isFree_foldl : ∀ {cs : List Char}, (∀ c ∈ cs, isQuiet c = true) → ∀ {r : Reading}, r.isFree = true →
    (cs.foldl next r).isFree = true
  | [], _, _, hr => hr
  | c :: cs, hcs, r, hr => by
    rw [List.foldl_cons]
    exact isFree_foldl (fun d hd => hcs d (List.mem_cons_of_mem c hd)) (isFree_next (hcs c List.mem_cons_self) hr)

theorem next_quote (hr : r.isFree = true) (q : Quote) : ∃ read, r.next q.char = .inQuotes q read := by
  have hstart : start q.char = .inQuotes q [] := by cases q <;> rfl
  have hbegun : r.continued? q.char = none → ∃ read, r.next q.char = .inQuotes q read := fun hnone =>
    ⟨[], by rw [next, hnone, ← hstart]; rfl⟩
  cases r with
  | between | atBracket => exact hbegun rfl
  | inWord read => exact hbegun (by cases q <;> rfl)
  | atMark m => exact hbegun (by cases q <;> simp [continued?, Quote.char])
  | atQuote q' read =>
    by_cases hq : q.char = q'.char
    · have hsame : q' = q := by cases q <;> cases q' <;> first | rfl | exact absurd hq (by decide)
      subst hsame
      exact ⟨q'.char :: read, by rw [next, continued?, if_pos rfl]; rfl⟩
    · exact hbegun (if_neg hq)
  | inQuotes | inBrackets | inLine | inBlock | atStar => cases hr

theorem isFree_quotation (hr : r.isFree = true) (q : Quote) (cs : List Char) :
    ((q.char :: (doubled q cs ++ [q.char])).foldl next r).isFree = true := by
  obtain ⟨read, hopened⟩ := next_quote hr q
  have hend : (inQuotes q (cs.reverse ++ read)).next q.char = .atQuote q (cs.reverse ++ read) := by
    rw [next, continued?, if_pos rfl]
    rfl
  rw [List.foldl_cons, hopened, List.foldl_append, foldl_of_goes (goes_doubled q cs read), List.foldl_cons, hend]
  rfl

end

end Reading

/-! ## The text of a statement -/

open Reading

def Token.isQuiet : Token → Bool
  | .word s => s.toList.all Reading.isQuiet
  | .name _ | .value _ | .fixed _ => true

theorem toList_replaceChar (q : Quote) (s : String) :
    (replaceChar q.char (String.ofList [q.char, q.char]) s).toList = doubled q s.toList := by
  simp only [replaceChar, String.toList_ofList]
  rfl

theorem toList_quoteName (s : String) :
    (Backend.sqlite.quoteName s).toList = '"' :: (doubled .double s.toList ++ ['"']) := by
  have hinner := toList_replaceChar .double s
  simp only [Backend.quoteName, String.toList_append]
  exact congrArg (fun cs => '"' :: (cs ++ ['"'])) hinner

theorem toList_quoteText (s : String) :
    (Backend.sqlite.quoteText s).toList = '\'' :: (doubled .single s.toList ++ ['\'']) := by
  simp only [Backend.quoteText, String.toList_append, String.toList_ofList]
  rfl

/-- **Tokens leave nothing open** in the text that they make. -/
theorem isFree_boundText : ∀ (ts : List Token) (n : Nat), ts.all Token.isQuiet = true → ∀ {r : Reading},
    r.isFree = true → ((boundTextFrom .sqlite n ts).toList.foldl next r).isFree = true
  | [], _, _, _, hr => hr
  | .word s :: ts, n, hts, r, hr => by
    rw [List.all_cons, Bool.and_eq_true] at hts
    rw [boundTextFrom, String.toList_append, List.foldl_append]
    exact isFree_boundText ts n hts.2 (isFree_foldl (List.all_eq_true.1 hts.1) hr)
  | .name s :: ts, n, hts, r, hr => by
    rw [boundTextFrom, String.toList_append, List.foldl_append, toList_quoteName]
    exact isFree_boundText ts n hts (isFree_quotation hr .double s.toList)
  | .value v :: ts, n, hts, r, hr => by
    have hmark : Backend.sqlite.placeholder (n + 1) = "?" := rfl
    have hquiet : "?".toList.all Reading.isQuiet = true := rfl
    rw [boundTextFrom, String.toList_append, List.foldl_append, hmark]
    exact isFree_boundText ts (n + 1) hts (isFree_foldl (List.all_eq_true.1 hquiet) hr)
  | .fixed s :: ts, n, hts, r, hr => by
    rw [boundTextFrom, String.toList_append, List.foldl_append, toList_quoteText]
    exact isFree_boundText ts n hts (isFree_quotation hr .single s.toList)

theorem quiet_placed (p : Place) (e : Expr) {ts : List Token} (h : ts.all Token.isQuiet = true) :
    (placed p e ts).all Token.isQuiet = true := by
  unfold placed
  split
  · simp only [inParens, List.all_append, h, Bool.and_true]
    rfl
  · exact h

theorem quiet_separated {word : String} (hword : Token.isQuiet (.word word) = true) : ∀ {tss : List (List Token)},
    (∀ ts ∈ tss, ts.all Token.isQuiet = true) → (separated word tss).all Token.isQuiet = true
  | [], _ => rfl
  | [ts], h => h ts List.mem_cons_self
  | ts :: us :: tss, h => by
    obtain ⟨hts, hrest⟩ := List.forall_mem_cons.1 h
    simp only [separated, List.all_append, List.all_cons, List.all_nil, hts, hword, quiet_separated hword hrest,
      Bool.and_true]

theorem quiet_conjuncts {es : List Expr} {tss : List (List Token)} (h : ∀ ts ∈ tss, ts.all Token.isQuiet = true) :
    (conjunctTokens es tss).all Token.isQuiet = true := by
  have hplaced : ∀ (es : List Expr) (tss : List (List Token)), (∀ ts ∈ tss, ts.all Token.isQuiet = true) →
      ∀ ts ∈ List.zipWith (placed .rightOfAnd) es tss, ts.all Token.isQuiet = true := by
    intro es tss h ts hts
    rw [← List.map_uncurry_zip_eq_zipWith] at hts
    obtain ⟨⟨e, us⟩, hmem, rfl⟩ := List.mem_map.1 hts
    exact quiet_placed .rightOfAnd e (h us (List.of_mem_zip hmem).2)
  have hseveral : ∀ (e : Expr) (es : List Expr) (ts : List Token) (tss : List (List Token)),
      (∀ us ∈ ts :: tss, us.all Token.isQuiet = true) →
      (separated " AND " (placed .leftOfAnd e ts :: List.zipWith (placed .rightOfAnd) es tss)).all Token.isQuiet =
        true := by
    intro e es ts tss h
    obtain ⟨hts, htss⟩ := List.forall_mem_cons.1 h
    exact quiet_separated rfl (List.forall_mem_cons.2 ⟨quiet_placed .leftOfAnd e hts, hplaced es tss htss⟩)
  match es, tss with
  | [_], [ts] => exact h ts List.mem_cons_self
  | [], _ | [_], [] | _ :: _ :: _, [] => rfl
  | [e], ts :: us :: tss => exact hseveral e [] ts (us :: tss) h
  | e :: f :: es, ts :: tss => exact hseveral e (f :: es) ts tss h

theorem quiet_clause {word : String} (hword : Token.isQuiet (.word word) = true) {ts : List Token}
    (h : ts.all Token.isQuiet = true) : (clause word ts).all Token.isQuiet = true := by
  unfold clause
  split
  · rfl
  · simp only [List.all_append, List.all_cons, List.all_nil, hword, h, Bool.and_true]

theorem quiet_source (table label : String) (joins : List Join) {conditions groupBy having : List Token}
    (hconditions : conditions.all Token.isQuiet = true) (hgroupBy : groupBy.all Token.isQuiet = true)
    (hhaving : having.all Token.isQuiet = true) :
    (sourceTokens table label joins conditions groupBy having).all Token.isQuiet = true := by
  have hjoins : (joins.flatMap Join.tokens).all Token.isQuiet = true := by
    rw [List.all_flatMap, List.all_eq_true]
    exact fun j _ => rfl
  simp only [sourceTokens, List.all_append, Bool.and_eq_true]
  exact ⟨⟨⟨⟨⟨rfl, rfl⟩, hjoins⟩, quiet_clause rfl hconditions⟩, quiet_clause rfl hgroupBy⟩, quiet_clause rfl hhaving⟩

mutual

theorem Expr.quiet_tokens : ∀ e : Expr, e.tokens.all Token.isQuiet = true
  | .column c => rfl
  | .value v => rfl
  | .call f arg => by
    simp only [Expr.tokens, List.all_append, Bool.and_eq_true]
    exact ⟨⟨by cases f <;> rfl, Expr.quiet_tokens arg⟩, rfl⟩
  | .compare op left right => by
    simp only [Expr.tokens, List.all_append, Bool.and_eq_true]
    exact ⟨⟨quiet_placed _ _ (Expr.quiet_tokens left), by cases op <;> rfl⟩, quiet_placed _ _ (Expr.quiet_tokens right)⟩
  | .isNull e | .isNotNull e => by
    simp only [Expr.tokens, List.all_append, Bool.and_eq_true]
    exact ⟨quiet_placed _ _ (Expr.quiet_tokens e), rfl⟩
  | .between e low high => by
    simp only [Expr.tokens, List.all_append, Bool.and_eq_true]
    exact ⟨⟨⟨⟨quiet_placed _ _ (Expr.quiet_tokens e), rfl⟩, quiet_placed _ _ (Expr.quiet_tokens low)⟩, rfl⟩,
      quiet_placed _ _ (Expr.quiet_tokens high)⟩
  | .inValues e values => by
    have hvalues : ∀ ts ∈ values.map fun v => [Token.value v], ts.all Token.isQuiet = true := by
      intro ts hts
      obtain ⟨v, -, rfl⟩ := List.mem_map.1 hts
      rfl
    simp only [Expr.tokens, List.all_append, Bool.and_eq_true]
    exact ⟨⟨⟨quiet_placed _ _ (Expr.quiet_tokens e), rfl⟩, quiet_separated rfl hvalues⟩, rfl⟩
  | .inQuery e query => by
    simp only [Expr.tokens, List.all_append, Bool.and_eq_true]
    exact ⟨⟨⟨quiet_placed _ _ (Expr.quiet_tokens e), rfl⟩, Subquery.quiet_tokens query⟩, rfl⟩
  | .like e pattern => by
    simp only [Expr.tokens, List.all_append, Bool.and_eq_true]
    exact ⟨quiet_placed _ _ (Expr.quiet_tokens e), rfl⟩
  | .not e => by
    simp only [Expr.tokens, List.all_append, Bool.and_eq_true]
    exact ⟨rfl, quiet_placed _ _ (Expr.quiet_tokens e)⟩
  | .and left right | .or left right => by
    simp only [Expr.tokens, List.all_append, Bool.and_eq_true]
    exact ⟨⟨quiet_placed _ _ (Expr.quiet_tokens left), rfl⟩, quiet_placed _ _ (Expr.quiet_tokens right)⟩
  | .nonempty query | .scalar query => by
    simp only [Expr.tokens, List.all_append, Bool.and_eq_true]
    exact ⟨⟨rfl, Subquery.quiet_tokens query⟩, rfl⟩

theorem Expr.quiet_tokensAll : ∀ es : List Expr, ∀ ts ∈ Expr.tokensAll es, ts.all Token.isQuiet = true
  | [], ts, hts => by simp [Expr.tokensAll] at hts
  | e :: es, ts, hts => by
    rw [Expr.tokensAll] at hts
    rcases List.mem_cons.1 hts with rfl | hts
    · exact Expr.quiet_tokens e
    · exact Expr.quiet_tokensAll es ts hts

theorem Subquery.quiet_tokens : ∀ q : Subquery, q.tokens.all Token.isQuiet = true
  | .select item table label joins conditions groupBy having => by
    simp only [Subquery.tokens, List.all_append, Bool.and_eq_true]
    exact ⟨⟨rfl, Expr.quiet_tokens item⟩, quiet_source table label joins
      (quiet_conjuncts (Expr.quiet_tokensAll conditions)) (quiet_separated rfl (Expr.quiet_tokensAll groupBy))
      (quiet_conjuncts (Expr.quiet_tokensAll having))⟩

end

theorem Statement.quiet_tokens (s : Statement) : s.tokens.all Token.isQuiet = true := by
  have hitems : ∀ ts ∈ s.items.map Item.tokens, ts.all Token.isQuiet = true := by
    intro ts hts
    obtain ⟨⟨e, name⟩, -, rfl⟩ := List.mem_map.1 hts
    cases name with
    | none => exact e.quiet_tokens
    | some name =>
      simp only [Item.tokens, List.all_append, Bool.and_eq_true]
      exact ⟨e.quiet_tokens, rfl⟩
  have hkeys : ∀ ts ∈ s.orderBy.map SortKey.tokens, ts.all Token.isQuiet = true := by
    intro ts hts
    obtain ⟨⟨e, ascending⟩, -, rfl⟩ := List.mem_map.1 hts
    simp only [SortKey.tokens, List.all_append, Bool.and_eq_true]
    exact ⟨e.quiet_tokens, by split <;> rfl⟩
  have hrange : ∀ {word : String} (n : Option UInt64), Token.isQuiet (.word word) = true →
      (rangeTokens word n).all Token.isQuiet = true := by
    intro word n hword
    cases n with
    | none => rfl
    | some n => simp only [rangeTokens, List.all_cons, hword]; rfl
  simp only [Statement.tokens, List.all_append, Bool.and_eq_true]
  exact ⟨⟨⟨⟨⟨by split <;> rfl, quiet_separated rfl hitems⟩, quiet_source s.table s.label s.joins
    (quiet_conjuncts (Expr.quiet_tokensAll s.conditions)) (quiet_separated rfl (Expr.quiet_tokensAll s.groupBy))
    (quiet_conjuncts (Expr.quiet_tokensAll s.having))⟩, quiet_clause rfl (quiet_separated rfl hkeys)⟩,
    hrange s.limit rfl⟩, hrange s.offset rfl⟩

/-- **No statement leaves a quotation or a comment open**, whatever its names are. -/
theorem Statement.closed_boundText (s : Statement) : Closed (s.boundText .sqlite) :=
  isFree_boundText s.tokens 0 s.quiet_tokens rfl

end PageQuery
