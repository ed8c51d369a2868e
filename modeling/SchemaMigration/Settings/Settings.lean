import SchemaMigration.Files.Tree
import SchemaMigration.Schema.Error
import SchemaMigration.Settings.Decoding
import SchemaMigration.Settings.Expansion
import SchemaMigration.Toml.Document

/-! # Settings

The settings of a project: its database, its schema file, its migrations, and environments in which
some of them are different. They are written in TOML, with variables of the process environment put
in before the text is read. Everything that is not given has a default, and nothing unknown is
allowed.
-/

namespace SchemaMigration

namespace Settings

/-- The kinds of databases. -/
inductive Provider
  | sqlite
  deriving DecidableEq, Repr

def Provider.name : Provider → String
  | .sqlite => "sqlite"

def Provider.ofName? (name : String) : Option Provider :=
  if name = "sqlite" ∨ name = "sqlite3" then some .sqlite else none

/-- The database of a project. -/
structure Database where
  provider : Provider := .sqlite
  url : Option String := none
  deriving DecidableEq, Repr

/-- Where the migrations of a project are: the directory of their files and the table of the
ledger. -/
structure Migrations where
  directory : String := "./migrations"
  table : String := "_keel_migrations"
  deriving DecidableEq, Repr

/-- What is different about the migrations in an environment. -/
structure MigrationsOverride where
  directory : Option String := none
  table : Option String := none
  deriving DecidableEq, Repr

/-- What is different in an environment: the address of the database, in a section that may be there
without it, and the migrations. -/
structure Override where
  database : Option (Option String) := none
  migrations : Option MigrationsOverride := none
  deriving DecidableEq, Repr

end Settings

open Settings

/-- The settings of a project. Environments have distinct names. -/
structure Settings where
  database : Database := {}
  schemaPath : String := "schema.keel"
  migrations : Migrations := {}
  environments : List (String × Override) := []
  deriving DecidableEq, Repr

namespace Settings

/-! ## Reading -/

/-- Whether a value is an empty table or array. -/
def isEmptyValue : Toml.Value → Bool
  | .array values => values.isEmpty
  | .table _ fields => fields.isEmpty
  | .tables tables => tables.isEmpty
  | _ => false

/-- A kind of database: its name, or a table whose only key is its name, with nothing in it. -/
def provider? : Toml.Value → Option Provider
  | .string name => Provider.ofName? name
  | .table _ [(name, value)] => if isEmptyValue value then Provider.ofName? name else none
  | _ => none

def database? (value : Toml.Value) : Option Database := do
  let r ← record? ["provider", "url"] value
  let provider ← r.withDefault "provider" 0 provider? .sqlite
  let url ← r.optional "url" 1 string?
  return ⟨provider, url⟩

def schemaPath? (value : Toml.Value) : Option String := do
  let r ← record? ["path"] value
  r.withDefault "path" 0 string? "schema.keel"

def migrations? (value : Toml.Value) : Option Migrations := do
  let r ← record? ["directory", "table"] value
  let directory ← r.withDefault "directory" 0 string? "./migrations"
  let table ← r.withDefault "table" 1 string? "_keel_migrations"
  return ⟨directory, table⟩

/-- What is different about the database in an environment. -/
def databaseOverride? (value : Toml.Value) : Option (Option String) := do
  let r ← record? ["url"] value
  r.optional "url" 0 string?

/-- What is different about the migrations in an environment. -/
def migrationsOverride? (value : Toml.Value) : Option MigrationsOverride := do
  let r ← record? ["directory", "table"] value
  let directory ← r.optional "directory" 0 string?
  let table ← r.optional "table" 1 string?
  return ⟨directory, table⟩

def override? (value : Toml.Value) : Option Override := do
  let r ← record? ["database", "migrations"] value
  let database ← r.optional "database" 0 databaseOverride?
  let migrations ← r.optional "migrations" 1 migrationsOverride?
  return ⟨database, migrations⟩

def environments? : Toml.Value → Option (List (String × Override))
  | .table _ fields => fields.mapM fun (name, value) => (override? value).map fun o => (name, o)
  | _ => none

def ofTable? (table : Toml.Table) : Option Settings := do
  let r ← record? ["database", "schema", "migrations", "environments"] (.table .explicit table)
  let database ← r.withDefault "database" 0 database? {}
  let schemaPath ← r.withDefault "schema" 1 schemaPath? "schema.keel"
  let migrations ← r.withDefault "migrations" 2 migrations? {}
  let environments ← r.withDefault "environments" 3 environments? []
  return ⟨database, schemaPath, migrations, environments⟩

/-- The settings in a text, with the variables of an environment put in. -/
def ofText (environment : String → Option String) (text : String) : Except SchemaError Settings :=
  match (Toml.document? (expand environment text)).bind ofTable? with
  | some settings => .ok settings
  | none => .error .malformedToml

def ofFile (environment : String → Option String) (tree : Files.Tree) (path : Files.Path) :
    Except SchemaError Settings :=
  match tree.readText path with
  | .ok text => ofText environment text
  | .error _ => .error (.unreadable path.text)

/-! ## Environments -/

def Migrations.overriddenBy (m : Migrations) (o : MigrationsOverride) : Migrations :=
  ⟨o.directory.getD m.directory, o.table.getD m.table⟩

/-- The settings in an environment, which is then no longer among the others. -/
def inEnvironment (s : Settings) (name : String) : Except SchemaError Settings :=
  match s.environments.lookup name with
  | none => .error (.configuration s!"unknown environment `{name}`")
  | some o =>
    .ok {
      database := { s.database with url := (o.database.bind id).or s.database.url }
      schemaPath := s.schemaPath
      migrations := (o.migrations.map s.migrations.overriddenBy).getD s.migrations
      environments := s.environments.filter fun e => e.1 != name }

end Settings

end SchemaMigration
