import SchemaMigration.Execution.Report
import SchemaMigration.Sql.CreatedTables

/-! # Managing migrations

A manager applies migrations to a database and keeps the ledger. It begins uninitialized, becomes
ready when the ledger exists, and is closed in the end; the other operations need it ready. Every
operation takes the manager's state, which is its phase and the state of the database, to a result
and the state after it.

A migration and its record belong to one transaction. The first migration that fails ends a run. A
migration whose script is not the one that was applied stops a run before anything happens, unless
the run is forced.
-/

namespace SchemaMigration

open Calendar (Instant)

/-- How migrations are to be applied. -/
structure ApplyOptions where
  isDryRun : Bool := false
  isForced : Bool := false
  deriving DecidableEq, Repr

/-- The state of a manager: its phase and the state of its database. -/
structure Managed (State : Type) where
  phase : Phase := .uninitialized
  database : State
  deriving Repr

/-- The migrations in a folder, or why they cannot be listed. -/
abbrev Listing := Except MigrationError (List Migration)

/-- A manager: what it reaches its database by, and its ledger. -/
structure Manager (State : Type) where
  executor : Executor State
  ledger : Ledger

namespace Manager

variable {State : Type} (manager : Manager State)

/-! ## The life of a manager -/

/-- Creates the ledger if it does not exist, after which the manager is ready. -/
def start (managed : Managed State) : Except MigrationError Unit × Managed State :=
  match managed.phase with
  | .closed => (.error (.invalidState .uninitialized .closed), managed)
  | phase =>
    match manager.ledger.create manager.executor managed.database with
    | (.ok (), database) => (.ok (), ⟨.ready, database⟩)
    | (.error error, database) => (.error error, ⟨phase, database⟩)

/-- Gives up the database. The manager is closed even when that fails. -/
def close (managed : Managed State) : Except MigrationError Unit × Managed State :=
  match managed.phase with
  | .closed => (.error (.invalidState .ready .closed), managed)
  | _ =>
    match manager.executor.perform .close managed.database with
    | (.ok _, database) => (.ok (), ⟨.closed, database⟩)
    | (.error error, database) => (.error (.execution error), ⟨.closed, database⟩)

/-- What an operation does on the database of a manager that is ready. -/
def whenReady {α : Type} (operation : State → Except MigrationError α × State)
    (managed : Managed State) : Except MigrationError α × Managed State :=
  match managed.phase with
  | .ready =>
    match operation managed.database with
    | (result, database) => (result, ⟨.ready, database⟩)
  | phase => (.error (.invalidState .ready phase), managed)

/-! ## Applying migrations -/

/-- The record of a migration that was applied with another script. -/
def mismatch? (records : List Record) (m : Migration) : Option Record :=
  (recorded? records m.name).filter fun r => r.checksum != m.checksum

/-- The outcomes of the migrations that were applied with other scripts. Unless the run is forced,
the first of them is an error. -/
def checkMismatches (records : List Record) (isForced : Bool) :
    List Migration → Except MigrationError (List Outcome)
  | [] => .ok []
  | m :: ms =>
    match mismatch? records m with
    | none => checkMismatches records isForced ms
    | some record =>
      if isForced then do
        return .mismatch m record :: (← checkMismatches records isForced ms)
      else .error (.checksumMismatch m.name record.checksum m.checksum)

def pending (migrations : List Migration) (records : List Record) : List Migration :=
  migrations.filter fun m => (recorded? records m.name).isNone

/-- Applies migrations in order, up to the first that fails. -/
def applyAll (now : Instant) : List Migration → State → List Outcome × State
  | [], database => ([], database)
  | m :: ms, database =>
    match manager.executor.transact (manager.ledger.application m now) database with
    | (.ok (), database) =>
      match applyAll now ms database with
      | (outcomes, database) => (.applied m :: outcomes, database)
    | (.error error, database) => ([.failed m error], database)

/-- Applies the migrations that are not recorded, given the records. -/
def applyPending (now : Instant) (options : ApplyOptions) (migrations : List Migration)
    (records : List Record) (database : State) : Except MigrationError ApplyReport × State :=
  match checkMismatches records options.isForced migrations with
  | .error error => (.error error, database)
  | .ok mismatches =>
    let migrations := pending migrations records
    if options.isDryRun then
      (.ok ⟨mismatches ++ migrations.map .dryRun, true⟩, database)
    else
      match manager.applyAll now migrations database with
      | (outcomes, database) => (.ok ⟨mismatches ++ outcomes, false⟩, database)

/-- Looks up the records and applies the migrations that are not among them. -/
def applyListed (now : Instant) (options : ApplyOptions) (migrations : List Migration)
    (database : State) : Except MigrationError ApplyReport × State :=
  match manager.ledger.records manager.executor database with
  | (.error error, database) => (.error error, database)
  | (.ok records, database) => manager.applyPending now options migrations records database

/-- An operation on listed migrations. Without a listing nothing is done. -/
def withListing {α : Type} (listing : Listing)
    (operation : List Migration → State → Except MigrationError α × State) (database : State) :
    Except MigrationError α × State :=
  match listing with
  | .error error => (.error error, database)
  | .ok migrations => operation migrations database

def apply (now : Instant) (options : ApplyOptions) (listing : Listing) :
    Managed State → Except MigrationError ApplyReport × Managed State :=
  whenReady (withListing listing (manager.applyListed now options))

/-! ## Starting over -/

/-- The tables that migrations create, the latest first. -/
def droppedTables (migrations : List Migration) : List String :=
  (Sql.createdTables (migrations.map Migration.sql)).reverse

/-- The statements that drop tables and then the ledger. -/
def dropStatements (tables : List String) : List String :=
  tables.map Sql.dropTableSql ++ [manager.ledger.dropSql]

/-- Runs statements in order, up to the first that fails. -/
def executeAll (statements : List String) (database : State) :
    Except MigrationError Unit × State :=
  match manager.executor.performAll (statements.map fun sql => .run sql []) database with
  | (.ok (), database) => (.ok (), database)
  | (.error error, database) => (.error (.execution error), database)

/-- Drops tables and the ledger, creates the ledger anew, and applies all migrations. -/
def rebuild (now : Instant) (options : ApplyOptions) (migrations : List Migration)
    (database : State) : Except MigrationError ResetReport × State :=
  let tables := droppedTables migrations
  let statements := manager.dropStatements tables
  match manager.executeAll statements database with
  | (.error error, database) => (.error error, database)
  | (.ok (), database) =>
    match manager.ledger.create manager.executor database with
    | (.error error, database) => (.error error, database)
    | (.ok (), database) =>
      match manager.applyListed now options migrations database with
      | (.error error, database) => (.error error, database)
      | (.ok report, database) => (.ok ⟨tables, statements, report⟩, database)

def dryReset (migrations : List Migration) : ResetReport :=
  let tables := droppedTables migrations
  ⟨tables, manager.dropStatements tables, ⟨migrations.map .dryRun, true⟩⟩

/-- Drops every table that the migrations create, and the ledger, and applies all migrations
again. -/
def reset (now : Instant) (options : ApplyOptions) (listing : Listing) :
    Managed State → Except MigrationError ResetReport × Managed State :=
  whenReady <| withListing listing fun migrations database =>
    if options.isDryRun then (.ok (manager.dryReset migrations), database)
    else manager.rebuild now options migrations database

/-! ## Status -/

def status (listing : Listing) :
    Managed State → Except MigrationError (List StatusEntry) × Managed State :=
  whenReady <| withListing listing fun migrations database =>
    match manager.ledger.records manager.executor database with
    | (.error error, database) => (.error error, database)
    | (.ok records, database) => (.ok (StatusEntry.all migrations records), database)

end Manager

end SchemaMigration
