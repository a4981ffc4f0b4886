import PageQuery.Plan.Plan
/-!
# Rows as JSON from SQLite

The statement of a plan is run inside another that makes one JSON object of each row, its members
named by the output columns.
-/
namespace PageQuery

def memberText (name : String) : String :=
  "'" ++ replaceChar '\'' "''" name ++ "', t.\"" ++ replaceChar '"' "\"\"" name ++ "\""

/-- A statement's text inside the one that makes objects of its rows. -/
def jsonRowsText (names : List String) (inner : String) : String :=
  "SELECT json_object(" ++ joinText ", " (names.map memberText) ++ ") FROM (" ++ inner ++ ") t"

def Plan.sqliteRowsText (p : Plan) : String :=
  jsonRowsText (p.columns.map OutputColumn.name) (p.statement.boundText .sqlite)

def Plan.sqliteCountText (p : Plan) : String := p.statement.boundText .sqlite

end PageQuery
