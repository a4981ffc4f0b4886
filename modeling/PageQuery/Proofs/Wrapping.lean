import PageQuery.Proofs.Keys
import PageQuery.Proofs.SqliteText
import PageQuery.Sqlite
/-!
# Names inside the statement that makes objects of rows

The text that is sent for rows has each column's name in it twice, as a text and as a name, and what ends one of these
is what the name itself may have in it.  Read by the rules of SQLite, no name ends its quotation early, whatever the
names are, and the names can be read off the text.
-/
namespace PageQuery

/-! ## The columns -/

def columnLexemes (name : String) : List Lexeme := [.text name, .mark ',', .word "t", .mark '.', .name name]

def columnsLexemes (names : List String) : List Lexeme := [Lexeme.mark ','].intercalate (names.map columnLexemes)

theorem columnsLexemes_cons (name other : String) (names : List String) :
    columnsLexemes (name :: other :: names) = columnLexemes name ++ .mark ',' :: columnsLexemes (other :: names) := by
  simp [columnsLexemes, List.intercalate]

open Reading

/-- **A column is read as its name, twice**, whatever the name is. -/
theorem lexemes_memberText (name : String) {c : Char} (hc : c ≠ '"') (rest : List Char) :
    between.lexemes ((memberText name).toList ++ c :: rest) = columnLexemes name ++ between.lexemes (c :: rest) := by
  have hsingle : (replaceChar '\'' "''" name).toList = doubled .single name.toList := toList_replaceChar .single name
  have hdouble : (replaceChar '"' "\"\"" name).toList = doubled .double name.toList := toList_replaceChar .double name
  have hchars : (memberText name).toList ++ c :: rest = '\'' :: (doubled .single name.toList ++ '\'' :: ',' ::
      ' ' :: 't' :: '.' :: '"' :: (doubled .double name.toList ++ '"' :: c :: rest)) := by
    simp only [memberText, String.toList_append, hsingle, hdouble, List.append_assoc]
    rfl
  have htext : ∀ cs, between.lexemes ('\'' :: (doubled .single name.toList ++ '\'' :: ',' :: cs)) =
      .text name :: between.lexemes (',' :: cs) := lexemes_quotation .single name (by decide)
  have hname : (inQuotes .double []).lexemes (doubled .double name.toList ++ '"' :: c :: rest) =
      .name name :: between.lexemes (c :: rest) := lexemes_quotation .double name hc rest
  have hcolumn : ∀ cs, between.lexemes (',' :: ' ' :: 't' :: '.' :: '"' :: cs) =
      [.mark ',', .word "t", .mark '.'] ++ (inQuotes .double []).lexemes cs := fun _ => rfl
  rw [hchars, htext, hcolumn, hname]
  rfl

theorem lexemes_members (rest : List Char) : ∀ names : List String,
    between.lexemes ((joinText ", " (names.map memberText)).toList ++ ')' :: rest) =
      columnsLexemes names ++ between.lexemes (')' :: rest)
  | [] => rfl
  | [name] => lexemes_memberText name (by decide) rest
  | name :: other :: names => by
    have hrest := lexemes_members rest (other :: names)
    have hcomma : ∀ cs, between.lexemes (',' :: ' ' :: cs) = .mark ',' :: between.lexemes cs := fun cs => rfl
    have hchars : (joinText ", " ((name :: other :: names).map memberText)).toList ++ ')' :: rest =
        (memberText name).toList ++ ',' :: ' ' ::
          ((joinText ", " ((other :: names).map memberText)).toList ++ ')' :: rest) := by
      simp [joinText_cons]
    rw [hchars, lexemes_memberText name (by decide), hcomma, hrest, columnsLexemes_cons, List.append_assoc]
    rfl

/-! ## The names read off -/

def namesAfter : List Lexeme → Option (List String)
  | .mark ')' :: _ => some []
  | .mark ',' :: .text n :: .mark ',' :: .word s :: .mark '.' :: .name m :: rest =>
    if s = "t" ∧ m = n then (namesAfter rest).map (n :: ·) else none
  | _ => none

def namesRead : List Lexeme → Option (List String)
  | .word s :: .word f :: .mark '(' :: rest =>
    if s = "SELECT" ∧ f = "json_object" then
      if rest.head? = some (.mark ')') then some [] else namesAfter (.mark ',' :: rest)
    else none
  | _ => none

theorem namesAfter_columns (ls : List Lexeme) : ∀ names : List String, names ≠ [] →
    namesAfter (.mark ',' :: (columnsLexemes names ++ .mark ')' :: ls)) = some names
  | [], h => absurd rfl h
  | [name], _ => by simp [columnsLexemes, List.intercalate, columnLexemes, namesAfter]
  | name :: other :: names, _ => by
    have hrest := namesAfter_columns ls (other :: names) (List.cons_ne_nil other names)
    rw [columnsLexemes_cons]
    simp only [columnLexemes, List.cons_append, List.nil_append, namesAfter, and_self, if_true, hrest, Option.map_some]

def openingLexemes : List Lexeme := [.word "SELECT", .word "json_object", .mark '(']

def middleLexemes : List Lexeme := [.mark ')', .word "FROM", .mark '(']

theorem namesRead_columns (names : List String) (ls : List Lexeme) :
    namesRead (openingLexemes ++ columnsLexemes names ++ middleLexemes ++ ls) = some names := by
  cases names with
  | nil => rfl
  | cons name names =>
    have hnames := namesAfter_columns (.word "FROM" :: .mark '(' :: ls) (name :: names) (List.cons_ne_nil name names)
    have hfirst : (columnsLexemes (name :: names) ++ .mark ')' :: .word "FROM" :: .mark '(' :: ls).head? =
        some (.text name) := by
      cases names <;> rfl
    simp only [openingLexemes, middleLexemes, List.cons_append, List.nil_append, List.append_assoc, namesRead, and_self,
      if_true, hfirst, hnames]
    rfl

/-! ## The text inside -/

theorem lexemes_closing : ∀ (cs : List Char) (r : Reading), (cs.foldl next r).isFree = true →
    r.lexemes (cs ++ ") t".toList) = r.lexemes cs ++ [.mark ')', .word "t"]
  | [], r, hfree => by
    -- outside quotations and comments no reading goes on with a parenthesis
    have hend : r.continued? ')' = none := by
      cases r with
      | between | inWord | atBracket => rfl
      | atQuote q => cases q <;> rfl
      | atMark m => simp [continued?]
      | inQuotes | inBrackets | inLine | inBlock | atStar => cases hfree
    exact lexemes_of_ended hend _
  | c :: cs, r, hfree => by
    rw [List.foldl_cons, next] at hfree
    cases hc : r.continued? c with
    | some r' =>
      rw [hc] at hfree
      rw [List.cons_append, lexemes_of_continued hc, lexemes_of_continued hc]
      exact lexemes_closing cs r' hfree
    | none =>
      rw [hc] at hfree
      have hrest : between.lexemes (c :: (cs ++ ") t".toList)) = between.lexemes (c :: cs) ++ [.mark ')', .word "t"] :=
        lexemes_closing cs (start c) hfree
      rw [List.cons_append, lexemes_of_ended hc, lexemes_of_ended hc, hrest, List.append_assoc]

theorem lexemes_of_closed {inner : String} (h : Closed inner) :
    lexemes (inner ++ ") t") = lexemes inner ++ [.mark ')', .word "t"] := by
  unfold lexemes
  rw [String.toList_append]
  exact lexemes_closing inner.toList .between h

theorem lexemes_jsonRowsText (names : List String) (inner : String) :
    lexemes (jsonRowsText names inner) =
      openingLexemes ++ columnsLexemes names ++ middleLexemes ++ lexemes (inner ++ ") t") := by
  have hchars : (jsonRowsText names inner).toList = "SELECT json_object(".toList ++
      ((joinText ", " (names.map memberText)).toList ++ ')' :: (" FROM (".toList ++ (inner ++ ") t").toList)) := by
    have happend : ∀ a j b i c : String,
        (a ++ j ++ b ++ i ++ c).toList = a.toList ++ (j.toList ++ (b.toList ++ (i ++ c).toList)) := by
      intro a j b i c
      simp only [String.toList_append, List.append_assoc]
    exact happend _ _ ") FROM (" _ _
  have hopening : ∀ cs, between.lexemes ("SELECT json_object(".toList ++ cs) =
      [.word "SELECT", .word "json_object"] ++ (atMark '(').lexemes cs := fun _ => rfl
  have hmiddle : ∀ cs, between.lexemes (')' :: (" FROM (".toList ++ cs)) =
      [.mark ')', .word "FROM"] ++ (atMark '(').lexemes cs := fun _ => rfl
  have hparen : ∀ cs, (atMark '(').lexemes cs = .mark '(' :: between.lexemes cs :=
    lexemes_atMark (by decide) (by decide)
  unfold lexemes
  rw [hchars, hopening, hparen, lexemes_members, hmiddle, hparen]
  simp only [openingLexemes, middleLexemes, List.cons_append, List.nil_append, List.append_assoc]

theorem namesRead_jsonRowsText (names : List String) (inner : String) :
    namesRead (lexemes (jsonRowsText names inner)) = some names := by
  rw [lexemes_jsonRowsText, namesRead_columns]

/-- **No name breaks out of the statement that makes objects of rows.**  Whatever the names and the text inside, the
whole is read as the beginning, each column as its name twice, and what stands before the text inside; the text inside
follows as it is, and is read as by itself if it leaves nothing open.  So the names can be read off the whole, and no
other names and no other text make the same. -/
theorem names_stay_quoted (names : List String) (inner : String) :
    lexemes (jsonRowsText names inner) =
        openingLexemes ++ columnsLexemes names ++ middleLexemes ++ lexemes (inner ++ ") t") ∧
      (Closed inner → lexemes (inner ++ ") t") = lexemes inner ++ [.mark ')', .word "t"]) ∧
      namesRead (lexemes (jsonRowsText names inner)) = some names ∧
      ∀ names' inner', jsonRowsText names' inner' = jsonRowsText names inner → names' = names ∧ inner' = inner := by
  refine ⟨lexemes_jsonRowsText names inner, lexemes_of_closed, namesRead_jsonRowsText names inner, ?_⟩
  intro names' inner' heq
  have hnames : names' = names := by
    have hread := namesRead_jsonRowsText names' inner'
    rw [heq, namesRead_jsonRowsText] at hread
    exact (Option.some.inj hread).symm
  subst hnames
  unfold jsonRowsText at heq
  rw [String.append_left_inj, String.append_right_inj] at heq
  exact ⟨rfl, heq⟩

example : lexemes (jsonRowsText ["', 1) --"] "SELECT 1") =
    [.word "SELECT", .word "json_object", .mark '(', .text "', 1) --", .mark ',', .word "t", .mark '.', .name "', 1) --",
      .mark ')', .word "FROM", .mark '(', .word "SELECT", .word "1", .mark ')', .word "t"] := by decide +kernel

/-- **What is sent for the rows of a plan** is its statement inside, read as by itself, and its columns before it. -/
theorem Plan.lexemes_sqliteRowsText (p : Plan) :
    lexemes p.sqliteRowsText =
        openingLexemes ++ columnsLexemes (p.columns.map OutputColumn.name) ++ middleLexemes ++
          (lexemes (p.statement.boundText .sqlite) ++ [.mark ')', .word "t"]) ∧
      namesRead (lexemes p.sqliteRowsText) = some (p.columns.map OutputColumn.name) := by
  refine ⟨?_, namesRead_jsonRowsText _ _⟩
  rw [sqliteRowsText, lexemes_jsonRowsText, lexemes_of_closed p.statement.closed_boundText]

end PageQuery
