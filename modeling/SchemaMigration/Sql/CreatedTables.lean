import SchemaMigration.Text.Scan

/-! # Tables that a script creates

The names of the tables that a script creates are read off its lines: a line that begins with
`CREATE TABLE`, in letters of either case, names a table by an identifier or in double quotes.
Quotes and comments around such a line are not looked at.
-/

namespace SchemaMigration.Sql

open Text (Scanner afterAnyCase? isSpace run word)

/-- What follows a keyword, in letters of either case, and the blanks after it. -/
def afterKeyword? (keyword : String) (cs : List Char) : Option (List Char) :=
  (afterAnyCase? keyword.toList cs).bind fun rest => (run isSpace rest).map (·.2)

/-- The name that goes on up to a closing quote, and what follows. A doubled quote stands for one.
In a name that is not closed, the last doubled quote closes it and starts what follows. -/
def quotedNameRest : Scanner
  | '"' :: '"' :: cs =>
    match quotedNameRest cs with
    | some (name, rest) => some ('"' :: name, rest)
    | none => some ([], '"' :: cs)
  | '"' :: cs => some ([], cs)
  | c :: cs => (quotedNameRest cs).map fun (name, rest) => (c :: name, rest)
  | [] => none

/-- A name in double quotes, which is not empty. -/
def quotedName : Scanner
  | '"' :: '"' :: '"' :: cs => (quotedNameRest cs).map fun (name, rest) => ('"' :: name, rest)
  | '"' :: '"' :: _ => none
  | '"' :: c :: cs => (quotedNameRest cs).map fun (name, rest) => (c :: name, rest)
  | _ => none

/-- The name of a table: in double quotes, or an identifier. -/
def tableName : Scanner :=
  fun cs => (quotedName cs).or (word cs)

def afterExistenceTest? (cs : List Char) : Option (List Char) := do
  afterKeyword? "exists" (← afterKeyword? "not" (← afterKeyword? "if" cs))

/-- The name of the table that a line creates, and what follows the name. The words of an existence
test are a test when a name follows them. -/
def createdTable : Scanner :=
  fun cs => do
    let rest ← afterKeyword? "create" (cs.dropWhile isSpace)
    let rest ← afterKeyword? "table" rest
    ((afterExistenceTest? rest).bind tableName).or (tableName rest)

/-- The names of the tables that a text creates, in order. The number counts the characters at its
front that belong to the name before; the flag tells whether a line begins. -/
def createdNamesFrom : Nat → Bool → List Char → List String
  | _, _, [] => []
  | skip + 1, _, c :: cs => createdNamesFrom skip (c == '\n') cs
  | 0, false, c :: cs => createdNamesFrom 0 (c == '\n') cs
  | 0, true, c :: cs =>
    match createdTable (c :: cs) with
    | some (name, rest) =>
      String.ofList name :: createdNamesFrom (cs.length - rest.length) false cs
    | none => createdNamesFrom 0 (c == '\n') cs

/-- The names of the tables that a script creates, in order. -/
def createdNames (script : String) : List String :=
  createdNamesFrom 0 true script.toList

/-- The members of a list, each where it occurs first. -/
def firstOccurrences (names : List String) : List String :=
  names.foldl (fun known name => if known.contains name then known else known ++ [name]) []

/-- The tables that scripts create, in the order of their creation, each once. -/
def createdTables (scripts : List String) : List String :=
  firstOccurrences (scripts.flatMap createdNames)

end SchemaMigration.Sql
