import SchemaMigration.Digest.Sha256
import SchemaMigration.Files.Path
import SchemaMigration.Number.Integer
import SchemaMigration.Sql.Script

/-! # Migrations

A migration is a script with a stamp and a slug, and the checksum its script had when it was made.
-/

namespace SchemaMigration

open Files (Path)

/-- A migration. The path is empty while it is not stored in a file. -/
structure Migration where
  timestamp : Int64
  slug : String
  sql : String
  checksum : String
  path : Path := ⟨""⟩
  deriving DecidableEq, Repr

namespace Migration

def ofScript (timestamp : Int64) (slug sql : String) : Migration :=
  { timestamp, slug, sql, checksum := Digest.checksum sql }

def name (m : Migration) : String :=
  Number.int64Text m.timestamp ++ "_" ++ m.slug

/-- The name of the file that a migration is stored in. -/
def fileName (m : Migration) : String :=
  m.name ++ ".sql"

/-- Whether the script is the one the checksum was taken of. -/
def isVerified (m : Migration) : Bool :=
  Digest.checksum m.sql == m.checksum

def statements (m : Migration) : List String :=
  Sql.statements m.sql

/-- The order of migrations: by stamp, then by name. -/
def before (m n : Migration) : Bool :=
  m.timestamp < n.timestamp || (m.timestamp == n.timestamp && !(n.name < m.name))

end Migration

end SchemaMigration
