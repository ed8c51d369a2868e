import SchemaMigration.Connection.Options
import SchemaMigration.Execution.Executor

/-! # Registries

A registry keeps one connection for every set of options and connects only where there is none yet.
How connections are made and closed is left open: both act on a state of the world and may fail. A
connection leaves the registry before it is closed, so a failure to close does not keep it.
-/

namespace SchemaMigration

/-- Connections by the text of their options, in the order in which they were made. -/
structure Registry (Connection : Type) where
  entries : List (String × Connection) := []
  deriving Repr

namespace Registry

variable {Connection World : Type}

def size (r : Registry Connection) : Nat :=
  r.entries.length

def isEmpty (r : Registry Connection) : Bool :=
  r.entries.isEmpty

def get? (r : Registry Connection) (options : ConnectionOptions) : Option Connection :=
  r.entries.lookup options.key

/-- The connection for options, which is made if there is none. -/
def getOrConnect (r : Registry Connection) (options : ConnectionOptions)
    (connect : ConnectionOptions → World → Except ExecutionError Connection × World)
    (world : World) : Except ExecutionError Connection × Registry Connection × World :=
  match r.get? options with
  | some connection => (.ok connection, r, world)
  | none =>
    match connect options world with
    | (.ok connection, world) =>
      (.ok connection, ⟨r.entries ++ [(options.key, connection)]⟩, world)
    | (.error error, world) => (.error error, r, world)

/-- Removes the connection for options and closes it. Tells whether there was one. -/
def remove (r : Registry Connection) (options : ConnectionOptions)
    (close : Connection → World → Except ExecutionError Unit × World) (world : World) :
    Except ExecutionError Bool × Registry Connection × World :=
  match r.get? options with
  | none => (.ok false, r, world)
  | some connection =>
    let rest : Registry Connection := ⟨r.entries.filter fun entry => entry.1 != options.key⟩
    match close connection world with
    | (.ok (), world) => (.ok true, rest, world)
    | (.error error, world) => (.error error, rest, world)

/-- Closes connections in order, up to the first that fails. -/
def closeEach (close : Connection → World → Except ExecutionError Unit × World) :
    List Connection → World → Except ExecutionError Unit × World
  | [], world => (.ok (), world)
  | connection :: rest, world =>
    match close connection world with
    | (.ok (), world) => closeEach close rest world
    | (.error error, world) => (.error error, world)

def closeAll (r : Registry Connection)
    (close : Connection → World → Except ExecutionError Unit × World) (world : World) :
    Except ExecutionError Unit × Registry Connection × World :=
  match closeEach close (r.entries.map Prod.snd) world with
  | (result, world) => (result, {}, world)

end Registry

end SchemaMigration
