/-! # Quoting in SQL

An identifier stands in double quotes and a string in single quotes. A quote of the same kind inside
is written twice, so nothing inside can end the quotes.
-/

namespace SchemaMigration.Sql

/-- A text with every quote of a kind written twice. -/
def doubled (quote : Char) (s : String) : String :=
  String.ofList (s.toList.flatMap fun c => if c = quote then [quote, quote] else [c])

def quoteName (name : String) : String :=
  "\"" ++ doubled '"' name ++ "\""

def quoteText (value : String) : String :=
  "'" ++ doubled '\'' value ++ "'"

def quoteNames (names : List String) : String :=
  ", ".intercalate (names.map quoteName)

end SchemaMigration.Sql
