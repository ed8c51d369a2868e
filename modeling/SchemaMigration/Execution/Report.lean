import SchemaMigration.Execution.Ledger

/-! # Reports

What became of migrations: of each in one run, in the order in which they were looked at, and of
each in all runs so far, as the files and the ledger tell it.
-/

namespace SchemaMigration

open Calendar (Instant)

/-- What became of a migration in a run. -/
inductive OutcomeStatus
  | applied
  | dryRun
  | checksumMismatch
  | failed
  deriving DecidableEq, Repr

/-- What became of a migration in a run. A dry run tells the statements that would be run, a failure
its error. -/
structure Outcome where
  name : String
  status : OutcomeStatus
  statements : List String := []
  error : Option String := none
  deriving DecidableEq, Repr

namespace Outcome

def applied (m : Migration) : Outcome :=
  { name := m.name, status := .applied }

def dryRun (m : Migration) : Outcome :=
  { name := m.name, status := .dryRun, statements := m.statements }

def mismatch (m : Migration) (record : Record) : Outcome :=
  { name := m.name
    status := .checksumMismatch
    error := some s!"expected {record.checksum}, got {m.checksum}" }

def failed (m : Migration) (error : ExecutionError) : Outcome :=
  { name := m.name, status := .failed, error := some error.message }

end Outcome

/-- The report of a run. -/
structure ApplyReport where
  outcomes : List Outcome := []
  isDryRun : Bool := false
  deriving DecidableEq, Repr

namespace ApplyReport

def withStatus (r : ApplyReport) (status : OutcomeStatus) : List String :=
  (r.outcomes.filter fun o => o.status = status).map Outcome.name

def applied (r : ApplyReport) : List String :=
  r.withStatus .applied

/-- The migrations that were applied before with another script. -/
def mismatches (r : ApplyReport) : List String :=
  r.withStatus .checksumMismatch

def failure? (r : ApplyReport) : Option Outcome :=
  r.outcomes.find? fun o => o.status = .failed

def isSuccess (r : ApplyReport) : Bool :=
  r.failure?.isNone

/-- A count of migrations in words, unless it is zero. -/
def countText? (names : List String) (words : String) : Option String :=
  if names.isEmpty then none else some (Number.natText names.length ++ " " ++ words)

/-- What the run did, in the order of a summary. -/
def parts (r : ApplyReport) : List String :=
  (countText? r.applied "applied").toList
    ++ (countText? (r.withStatus .dryRun) "pending (dry run)").toList
    ++ (countText? r.mismatches "checksum mismatches").toList
    ++ (r.failure?.map fun o => s!"failed at {o.name}").toList

/-- The run in words, given how long it took. -/
def summary (r : ApplyReport) (milliseconds : Nat) : String :=
  match r.parts with
  | [] => "No migrations applied"
  | parts => ", ".intercalate parts ++ " in " ++ Number.natText milliseconds ++ "ms"

end ApplyReport

/-- The report of a reset: the tables that were dropped, the statements that dropped them and the
ledger, and the run that applied all migrations again. -/
structure ResetReport where
  dropped : List String
  statements : List String
  apply : ApplyReport
  deriving DecidableEq, Repr

/-- The state of a migration. -/
structure StatusEntry where
  name : String
  timestamp : Int64
  appliedAt : Option Instant
  isMismatch : Bool := false
  isMissing : Bool := false
  deriving DecidableEq, Repr

namespace StatusEntry

def isApplied (e : StatusEntry) : Bool :=
  e.appliedAt.isSome

def ofMigration (records : List Record) (m : Migration) : StatusEntry :=
  let record := recorded? records m.name
  { name := m.name
    timestamp := m.timestamp
    appliedAt := record.map Record.appliedAt
    isMismatch := record.any fun r => r.checksum != m.checksum }

/-- The state of a recorded migration whose file is gone. -/
def ofRecord (r : Record) : StatusEntry :=
  { name := r.name, timestamp := r.timestamp, appliedAt := some r.appliedAt, isMissing := true }

/-- The states of all migrations: those in files, then those only recorded. -/
def all (migrations : List Migration) (records : List Record) : List StatusEntry :=
  migrations.map (ofMigration records)
    ++ (records.filter fun r => !migrations.any fun m => m.name == r.name).map ofRecord

end StatusEntry

end SchemaMigration
