import SchemaMigration.Files.Tree
import SchemaMigration.Migration.Migration
import SchemaMigration.Migration.Name
import SchemaMigration.Migration.Stamp

/-! # Folders of migrations

Migrations are stored in one directory, each in a file of its own. Files with the extension `sql`
must have the name of a migration; others are ignored. A directory that does not exist holds none.
-/

namespace SchemaMigration

open Calendar (Instant)
open Files (Path Tree)

def Files.Fault.toError (path : Path) (fault : Files.Fault) : MigrationError :=
  .io path <|
    match fault with
    | .missing => "no such file or directory"
    | .notADirectory => "not a directory"
    | .notAFile => "is a directory"
    | .notAText => "not a text"
    | .badName => "invalid name"

/-- A directory of migrations. -/
structure Folder where
  path : Path
  deriving DecidableEq, Repr

namespace Folder

def readMigration (tree : Tree) (path : Path) : Except MigrationError Migration := do
  let some stem := path.stem? | throw (.invalidMigration (.badFileName path))
  let (timestamp, slug) ← MigrationName.parse stem
  let sql ← (tree.readText path).mapError (Files.Fault.toError path)
  return { Migration.ofScript timestamp slug sql with path }

/-- The paths of the files that must be migrations. -/
def scripts (f : Folder) (tree : Tree) : Except MigrationError (List Path) := do
  let names ← (tree.files f.path).mapError (Files.Fault.toError f.path)
  return (names.map f.path.join).filter fun path => path.extension? == some "sql"

def list (f : Folder) (tree : Tree) : Except MigrationError (List Migration) := do
  if ← (tree.contains f.path).mapError (Files.Fault.toError f.path) then
    let migrations ← (← f.scripts tree).mapM (readMigration tree)
    return migrations.mergeSort Migration.before
  else return []

def latest? (migrations : List Migration) : Option Int64 :=
  migrations.foldl (fun latest m =>
    match latest with
    | some stamp => some (if stamp ≤ m.timestamp then m.timestamp else stamp)
    | none => some m.timestamp) none

def nextStamp (f : Folder) (tree : Tree) (now : Instant) : Except MigrationError Int64 := do
  return Stamp.next now (latest? (← f.list tree))

/-- Stores a migration, and creates the directory if it is missing. The migration is given back with
its path. A file that could not be written leaves the directories that were created for it. -/
def write (f : Folder) (m : Migration) (tree : Tree) : Except MigrationError Migration × Tree :=
  match tree.createDirectories f.path with
  | (.error fault, tree) => (.error (fault.toError f.path), tree)
  | (.ok (), tree) =>
    let path := f.path.join m.fileName
    match tree.write path (.text m.sql) with
    | .error fault => (.error (fault.toError path), tree)
    | .ok tree => (.ok { m with path }, tree)

end Folder

end SchemaMigration
