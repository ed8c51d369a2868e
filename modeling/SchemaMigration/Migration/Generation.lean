import SchemaMigration.Migration.Folder
import SchemaMigration.Plan.Difference
import SchemaMigration.Schema.Reading

/-! # Generating migrations

A migration is generated from a schema file and the state of the schema before. Beside the
migrations a folder holds the text of the schema that its latest migration was generated from, the
snapshot; without one, the state before is the empty document.
-/

namespace SchemaMigration

open Calendar (Instant)
open Files (Path Tree)

namespace Folder

def snapshotName : String :=
  "schema.snapshot.keel"

def snapshotPath (f : Folder) : Path :=
  f.path.join snapshotName

def readDocument (tree : Tree) (path : Path) : Except MigrationError (String × Document) := do
  let text ← (tree.readText path).mapError (Files.Fault.toError path)
  let document ← (Document.ofText text).mapError .schema
  return (text, document)

def previousState (f : Folder) (tree : Tree) : Except MigrationError Document := do
  if ← (tree.contains f.snapshotPath).mapError (Files.Fault.toError f.snapshotPath) then
    return (← readDocument tree f.snapshotPath).2
  else return {}

/-- What there is to generate: the text of the schema, and the migration if there are changes. -/
def prepare (f : Folder) (tree : Tree) (schema : Path) (previous : Document) (name : String)
    (now : Instant) : Except MigrationError (String × Option Migration) := do
  let (text, current) ← readDocument tree schema
  match ← (previous.difference current).mapError .schema with
  | [] => return (text, none)
  | changes =>
    let stamp ← f.nextStamp tree now
    return (text, some (.ofScript stamp (MigrationName.slug name) (Change.script name changes)))

/-- Generates a migration from the schema in a file and the state before, stores it, and then stores
the snapshot. Without changes nothing is stored. -/
def generate (f : Folder) (schema : Path) (previous : Document) (name : String) (now : Instant)
    (tree : Tree) : Except MigrationError (Option Migration) × Tree :=
  match f.prepare tree schema previous name now with
  | .error error => (.error error, tree)
  | .ok (_, none) => (.ok none, tree)
  | .ok (text, some migration) =>
    match f.write migration tree with
    | (.error error, tree) => (.error error, tree)
    | (.ok migration, tree) =>
      match tree.write f.snapshotPath (.text text) with
      | .error fault => (.error (fault.toError f.snapshotPath), tree)
      | .ok tree => (.ok (some migration), tree)

/-- Generates a migration from the schema in a file and the snapshot. -/
def generateNext (f : Folder) (schema : Path) (name : String) (now : Instant) (tree : Tree) :
    Except MigrationError (Option Migration) × Tree :=
  match f.previousState tree with
  | .error error => (.error error, tree)
  | .ok previous => f.generate schema previous name now tree

end Folder

end SchemaMigration
