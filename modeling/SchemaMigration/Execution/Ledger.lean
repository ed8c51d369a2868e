import SchemaMigration.Calendar.Rfc3339
import SchemaMigration.Execution.Executor
import SchemaMigration.Migration.Error
import SchemaMigration.Migration.Migration
import SchemaMigration.Sql.Definition

/-! # The ledger

The migrations that were applied are recorded in a table of the database, the ledger: one row for
each, with its name, its stamp, the checksum of what was run and the time.
-/

namespace SchemaMigration

open Calendar (Instant)
open Sql (quoteName)

/-- A record of an applied migration. -/
structure Record where
  name : String
  timestamp : Int64
  checksum : String
  appliedAt : Instant
  deriving DecidableEq, Repr

namespace Record

/-- The record of a migration that is applied at an instant. -/
def ofMigration (m : Migration) (now : Instant) : Record :=
  ⟨m.name, m.timestamp, m.checksum, now⟩

/-- The values that a record is stored as, in the order of the columns. -/
def values (r : Record) : List Value :=
  [.text r.name, .integer r.timestamp, .text r.checksum, .text r.appliedAt.toText]

/-- A value of a row that must be there. -/
def require {α : Type} (column : String) (value : Option α) : Except MigrationError α :=
  match value with
  | some a => .ok a
  | none => .error (.invalidMigration (.badRecord column))

def ofRow (row : Row) : Except MigrationError Record := do
  let name ← require "name" (row.text? "name")
  let appliedAt ← require "applied_at" ((row.text? "applied_at").bind Instant.ofText?)
  let timestamp ← require "timestamp" (row.integer? "timestamp")
  let checksum ← require "checksum" (row.text? "checksum")
  return ⟨name, timestamp, checksum, appliedAt⟩

end Record

/-- A ledger, by the name of its table. -/
structure Ledger where
  table : String
  deriving DecidableEq, Repr

namespace Ledger

/-- The name of the table when none is given. -/
def defaultTable : String :=
  "_keel_migrations"

def columns : List String :=
  ["name", "timestamp", "checksum", "applied_at"]

/-- The statement that creates the table, if it does not exist. -/
def createSql (l : Ledger) : String :=
  "CREATE TABLE IF NOT EXISTS " ++ quoteName l.table ++ " (\n"
    ++ "    \"name\" TEXT NOT NULL UNIQUE,\n"
    ++ "    \"timestamp\" INTEGER NOT NULL,\n"
    ++ "    \"checksum\" TEXT NOT NULL,\n"
    ++ "    \"applied_at\" TIMESTAMP NOT NULL\n);"

/-- The statement that drops the table, if it exists. -/
def dropSql (l : Ledger) : String :=
  Sql.dropTableSql l.table

/-- The statement that selects all rows, the earliest first. -/
def selectSql (l : Ledger) : String :=
  "SELECT " ++ Sql.quoteNames columns ++ " FROM " ++ quoteName l.table
    ++ " ORDER BY \"applied_at\", \"timestamp\""

def insertSql (l : Ledger) : String :=
  "INSERT INTO " ++ quoteName l.table ++ " (" ++ Sql.quoteNames columns
    ++ ") VALUES (?1, ?2, ?3, ?4)"

/-- The request that inserts a record in the open transaction. -/
def insertion (l : Ledger) (record : Record) : Request :=
  .runInside l.insertSql record.values

/-- The requests that apply a migration in a transaction: its statements and then its record. -/
def application (l : Ledger) (m : Migration) (now : Instant) : List Request :=
  (m.statements.map fun sql => .runInside sql []) ++ [l.insertion (.ofMigration m now)]

variable {State : Type}

def execute (executor : Executor State) (sql : String) (state : State) :
    Except MigrationError Unit × State :=
  match executor.perform (.run sql []) state with
  | (.ok _, state) => (.ok (), state)
  | (.error error, state) => (.error (.execution error), state)

def create (l : Ledger) (executor : Executor State) (state : State) :
    Except MigrationError Unit × State :=
  execute executor l.createSql state

def drop (l : Ledger) (executor : Executor State) (state : State) :
    Except MigrationError Unit × State :=
  execute executor l.dropSql state

def records (l : Ledger) (executor : Executor State) (state : State) :
    Except MigrationError (List Record) × State :=
  match executor.perform (.run l.selectSql []) state with
  | (.ok rows, state) => (rows.mapM Record.ofRow, state)
  | (.error error, state) => (.error (.execution error), state)

end Ledger

/-- The record of a name. Of several the last counts. -/
def recorded? (records : List Record) (name : String) : Option Record :=
  (records.filter fun r => r.name == name).getLast?

end SchemaMigration
