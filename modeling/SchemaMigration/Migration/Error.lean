import SchemaMigration.Execution.Executor
import SchemaMigration.Files.Path
import SchemaMigration.Schema.Error

/-! # Migration errors

What can go wrong with migrations: files, schemas, the database, the names and contents of
migrations, and the order of operations.
-/

namespace SchemaMigration

open Files (Path)

/-- What can be wrong with a migration, its name or its record. -/
inductive MigrationFault
  | badName (stem : String)
  | timestampRange (digits : String)
  | badFileName (path : Path)
  | badRecord (column : String)
  | stated (text : String)
  deriving DecidableEq, Repr

def MigrationFault.message : MigrationFault → String
  | .badName stem => s!"invalid migration name format: {stem}. Expected: TIMESTAMP_NAME"
  | .timestampRange digits => s!"migration timestamp out of range: {digits}"
  | .badFileName path => s!"invalid file name: {path.text}"
  | .badRecord column => s!"ledger row has an invalid `{column}` value"
  | .stated text => text

/-- The phases of a manager: before its ledger exists, ready for work, and after its connection is
given up. -/
inductive Phase
  | uninitialized
  | ready
  | closed
  deriving DecidableEq, Repr

def Phase.name : Phase → String
  | .uninitialized => "uninitialized"
  | .ready => "ready"
  | .closed => "closed"

/-- An error in the work with migrations. -/
inductive MigrationError
  | io (path : Path) (reason : String)
  | schema (error : SchemaError)
  | execution (error : ExecutionError)
  | invalidMigration (fault : MigrationFault)
  | checksumMismatch (name expected actual : String)
  | invalidState (expected actual : Phase)
  | configuration (text : String)
  deriving Repr

namespace MigrationError

def message : MigrationError → String
  | .io path reason => s!"I/O error on {path.text}: {reason}"
  | .schema error => s!"Schema error: {error.message}"
  | .execution error => s!"Execution error: {error.message}"
  | .invalidMigration fault => s!"Invalid migration: {fault.message}"
  | .checksumMismatch name expected actual =>
    s!"Checksum mismatch for migration '{name}': expected {expected}, got {actual}"
  | .invalidState expected actual =>
    s!"Invalid state: expected {expected.name}, but manager is {actual.name}"
  | .configuration text => s!"Configuration error: {text}"

def isSchemaError : MigrationError → Bool
  | .schema _ => true
  | _ => false

end MigrationError

end SchemaMigration
