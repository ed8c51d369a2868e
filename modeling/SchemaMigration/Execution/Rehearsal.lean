import SchemaMigration.Execution.Ledger

/-! # Rehearsals

A database for rehearsals: it knows only the rows of one ledger, notes every request it takes, and
fails where it is told to. Rows inserted in a transaction count when the transaction is committed.
-/

namespace SchemaMigration

/-- The state of a rehearsal. Failures are texts: a statement that contains one fails, and so does a
request of whose mark one is. The log holds the requests taken, the latest first. -/
structure Rehearsal where
  rows : List Row := []
  uncommitted : List Row := []
  failures : List String := []
  isClosed : Bool := false
  log : List Request := []
  deriving DecidableEq, Repr

namespace Rehearsal

def occursIn (part : List Char) : List Char → Bool
  | [] => part.isEmpty
  | c :: cs => part.isPrefixOf (c :: cs) || occursIn part cs

/-- The mark of a request in the log, unless it is a statement. -/
def mark? : Request → Option String
  | .begin => some "<BEGIN>"
  | .commit => some "<COMMIT>"
  | .rollback => some "<ROLLBACK>"
  | .close => some "<CLOSE>"
  | .run .. | .runInside .. => none

def failureText : String :=
  "mock failure"

/-- Whether a request with a mark is told to fail. -/
def failsAt (r : Rehearsal) (mark : String) : Bool :=
  r.failures.contains mark

def failsOn (r : Rehearsal) (sql : String) : Bool :=
  r.failures.any fun failure => occursIn failure.toList sql.toList

def note (r : Rehearsal) (request : Request) : Rehearsal :=
  { r with log := request :: r.log }

/-- The beginning of a statement that selects from a ledger. -/
def selection : String :=
  "SELECT " ++ Sql.quoteNames Ledger.columns ++ " FROM "

/-- What a statement does that does not fail: with four parameters it inserts a row, a selection
gives the rows, and outside a transaction dropping the ledger removes them. -/
def execute (l : Ledger) (isInside : Bool) (sql : String) (parameters : List Value)
    (r : Rehearsal) : List Row × Rehearsal :=
  if parameters.length = 4 then
    let row : Row := ⟨Ledger.columns, parameters⟩
    if isInside then ([], { r with uncommitted := r.uncommitted ++ [row] })
    else ([], { r with rows := r.rows ++ [row] })
  else if selection.toList.isPrefixOf sql.toList then (r.rows, r)
  else if !isInside && sql == l.dropSql then ([], { r with rows := [] })
  else ([], r)

def run (l : Ledger) (request : Request) (isInside : Bool) (sql : String)
    (parameters : List Value) (r : Rehearsal) : Except ExecutionError (List Row) × Rehearsal :=
  if r.isClosed then (.error .closed, r)
  else if r.failsOn sql then (.error (.statement sql failureText), r.note request)
  else
    let (rows, r) := execute l isInside sql parameters (r.note request)
    (.ok rows, r)

def control (r : Rehearsal) (request : Request) (after : Rehearsal → Rehearsal) :
    Except ExecutionError (List Row) × Rehearsal :=
  let mark := (mark? request).getD ""
  if r.failsAt mark then
    (.error (.transaction (mark ++ ": " ++ failureText)),
      { r.note request with uncommitted := [] })
  else (.ok [], after (r.note request))

def perform (l : Ledger) (request : Request) (r : Rehearsal) :
    Except ExecutionError (List Row) × Rehearsal :=
  match request with
  | .run sql parameters => r.run l request false sql parameters
  | .runInside sql parameters => r.run l request true sql parameters
  | .begin => r.control request fun r => { r with uncommitted := [] }
  | .commit => r.control request fun r =>
    { r with rows := r.rows ++ r.uncommitted, uncommitted := [] }
  | .rollback => r.control request fun r => { r with uncommitted := [] }
  | .close =>
    let closed := { r.note request with isClosed := true }
    if r.failsAt "<CLOSE>" then (.error (.connection failureText), closed) else (.ok [], closed)

def executor (l : Ledger) : Executor Rehearsal :=
  ⟨perform l⟩

def seed (r : Rehearsal) (row : Row) : Rehearsal :=
  { r with rows := r.rows ++ [row] }

end Rehearsal

end SchemaMigration
