import SchemaMigration.Execution.Value

/-! # Executors

An executor carries out requests to a database, one after the other. It is given by how it answers a
request in a state; nothing else is known about it. A transaction is begun, statements are run in
it, and it is committed or rolled back.
-/

namespace SchemaMigration

/-- Why a request was not carried out. -/
inductive ExecutionError
  | statement (sql message : String)
  | connection (message : String)
  | transaction (message : String)
  | closed
  deriving DecidableEq, Repr

def ExecutionError.message : ExecutionError → String
  | .statement sql message => s!"failed to execute `{sql}`: {message}"
  | .connection message => s!"connection failed: {message}"
  | .transaction message => s!"transaction error: {message}"
  | .closed => "executor is closed"

/-- A request to a database. A statement is run with parameters, in the open transaction or outside
of any. -/
inductive Request
  | run (sql : String) (parameters : List Value)
  | runInside (sql : String) (parameters : List Value)
  | begin
  | commit
  | rollback
  | close
  deriving DecidableEq, Repr

/-- An executor answers a request in a state with rows or an error, and goes to another state. -/
structure Executor (State : Type) where
  perform : Request → State → Except ExecutionError (List Row) × State

namespace Executor

variable {State : Type}

/-- Carries out requests in order, up to the first that fails. -/
def performAll (executor : Executor State) :
    List Request → State → Except ExecutionError Unit × State
  | [], state => (.ok (), state)
  | request :: requests, state =>
    match executor.perform request state with
    | (.ok _, state) => executor.performAll requests state
    | (.error error, state) => (.error error, state)

/-- Carries out requests in a transaction. When one fails the transaction is rolled back, and the
failure of the request is what is reported. -/
def transact (executor : Executor State) (requests : List Request) (state : State) :
    Except ExecutionError Unit × State :=
  match executor.perform .begin state with
  | (.error error, state) => (.error error, state)
  | (.ok _, state) =>
    match executor.performAll requests state with
    | (.error error, state) => (.error error, (executor.perform .rollback state).2)
    | (.ok (), state) =>
      match executor.perform .commit state with
      | (.error error, state) => (.error error, state)
      | (.ok _, state) => (.ok (), state)

end Executor

end SchemaMigration
