import SchemaMigration.Connection.Registry

/-! # Rehearsed connections

Connections for rehearsals are numbered by the attempts to make them. An attempt fails with a
message if it is given one; closing fails for the connections up to a number, which count as closed
nevertheless.
-/

namespace SchemaMigration

/-- The attempts to connect so far, the connections closed so far, and the last of those that cannot
be closed without a failure. -/
structure RehearsedConnections where
  attempts : Nat := 0
  closed : List Nat := []
  lastFailing : Nat := 0
  deriving DecidableEq, Repr

namespace RehearsedConnections

/-- An attempt to connect, which fails with a message if there is one. -/
def connect (failure : Option String) (_options : ConnectionOptions) (c : RehearsedConnections) :
    Except ExecutionError Nat × RehearsedConnections :=
  let c := { c with attempts := c.attempts + 1 }
  match failure with
  | some message => (.error (.connection message), c)
  | none => (.ok c.attempts, c)

def close (connection : Nat) (c : RehearsedConnections) :
    Except ExecutionError Unit × RehearsedConnections :=
  let after := { c with closed := c.closed ++ [connection] }
  if connection ≤ c.lastFailing then (.error (.connection "mock failure"), after)
  else (.ok (), after)

/-- From now on all connections made so far fail when they are closed. -/
def failClosing (c : RehearsedConnections) : RehearsedConnections :=
  { c with lastFailing := c.attempts }

end RehearsedConnections

end SchemaMigration
