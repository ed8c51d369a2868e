import SchemaMigration.Text.Cluster
import SchemaMigration.Text.Letter
import SchemaMigration.Text.Scan

/-! # Words inside a name

A name such as `HTTPServer` or `user-id` is a row of words. A separator (underscore, hyphen, space)
ends a word and is dropped. A word also ends between a lower case and an upper case character,
between a letter and a digit either way, and before the last of several upper case characters when
a lower case one follows. Joined in lower case by underscores, the words give the name's snake case.
-/

namespace SchemaMigration.Text

/-- What a cluster counts as when words are told apart. -/
inductive Shape
  | separator
  | upper
  | lower
  | digit
  | other
  deriving DecidableEq, Repr

/-- The shape of a cluster. It is upper case when it equals its upper case form and differs from its
lower case form, and lower case the other way round. -/
def shapeOf (cluster : List Char) : Shape :=
  if cluster = ['_'] ∨ cluster = ['-'] ∨ cluster = [' '] then .separator
  else if cluster.all isDigit then .digit
  else if cluster.any hasLower && !cluster.any hasUpper then .upper
  else if cluster.any hasUpper && !cluster.any hasLower then .lower
  else .other

/-- Whether a word ends between two shapes, the second of which may be followed by a third. -/
def endsWord : Shape → Shape → Option Shape → Bool
  | .lower, .upper, _ => true
  | .upper, .digit, _ => true
  | .digit, .upper, _ => true
  | .digit, .lower, _ => true
  | .lower, .digit, _ => true
  | .upper, .upper, some .lower => true
  | _, _, _ => false

/-- The words of a row of clusters, given the shape before it and the word under way. -/
def wordsFrom (before : Shape) (current : List Char) : List (List Char) → List (List Char)
  | [] => [current]
  | cluster :: rest =>
    let shape := shapeOf cluster
    if shape = .separator then current :: wordsFrom shape [] rest
    else if endsWord before shape (rest.head?.map shapeOf) then
      current :: wordsFrom shape cluster rest
    else wordsFrom shape (current ++ cluster) rest

/-- The words of a name, none of them empty. -/
def words (name : List Char) : List (List Char) :=
  (wordsFrom .separator [] (clusters name)).filter fun w => !w.isEmpty

/-- A name in snake case: its words in lower case, joined by underscores. -/
def snakeCase (name : String) : String :=
  "_".intercalate ((words name.toList).map fun w => String.ofList (lower w))

end SchemaMigration.Text
