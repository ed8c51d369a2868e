import SchemaMigration.Migration.Error
import SchemaMigration.Number.Integer
import SchemaMigration.Text.Scan

/-! # Names of migrations

A migration is named by its stamp, an underscore and a slug. The slug is made of a name in free
form: its ASCII letters and digits in lower case, with one underscore for whatever stands between
them.
-/

namespace SchemaMigration.MigrationName

open Text (isDigit isLetter lowerAscii)

/-- The slug of what is left of a name, given whether something was read before and whether a
separator is due. -/
def slugFrom (started due : Bool) : List Char → List Char
  | [] => []
  | c :: cs =>
    if isLetter c || isDigit c then
      (if due && started then ['_'] else []) ++ lowerAscii c :: slugFrom true false cs
    else slugFrom started true cs

/-- The slug of a name. A name without ASCII letters and digits gives `migration`. -/
def slug (name : String) : String :=
  match slugFrom false false name.toList with
  | [] => "migration"
  | cs => String.ofList cs

/-- The stamp and the slug that the name of a migration consists of. The stamp is all digits, and
neither part is empty. -/
def parse (stem : String) : Except MigrationError (Int64 × String) :=
  let cs := stem.toList
  let digits := cs.takeWhile (· != '_')
  match cs.dropWhile (· != '_') with
  | _ :: slug =>
    if digits.isEmpty || !digits.all isDigit || slug.isEmpty then
      .error (.invalidMigration (.badName stem))
    else
      match Number.readInt64 false digits with
      | some timestamp => .ok (timestamp, String.ofList slug)
      | none => .error (.invalidMigration (.timestampRange (String.ofList digits)))
  | [] => .error (.invalidMigration (.badName stem))

end SchemaMigration.MigrationName
