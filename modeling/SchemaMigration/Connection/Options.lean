import SchemaMigration.Number.Integer
import SchemaMigration.Text.JsonString
import SchemaMigration.Text.Scan

/-! # Connection options

How a database is to be opened. The address may begin with a scheme, which is no part of the path.
Further options are kept in the order of their keys. The text of the options, in JSON, tells
different options apart.
-/

namespace SchemaMigration

open Number (natText)

/-- A length of time. -/
structure Duration where
  seconds : Nat
  nanos : Nat
  deriving DecidableEq, Repr

namespace Duration

/-- A length of time in which full seconds are not counted as nanoseconds. -/
def ofParts (seconds nanos : Nat) : Duration :=
  ⟨seconds + nanos / 1000000000, nanos % 1000000000⟩

def milliseconds (d : Duration) : Nat :=
  d.seconds * 1000 + d.nanos / 1000000

end Duration

/-- The options for opening a database. The further options have distinct keys in ascending
order. -/
structure ConnectionOptions where
  url : String := ":memory:"
  foreignKeys : Bool := true
  busyTimeout : Duration := ⟨5, 0⟩
  extra : List (String × String) := []
  deriving DecidableEq, Repr

namespace ConnectionOptions

/-- Pairs in the order of their keys with another value for one key. -/
def insertSorted (key value : String) : List (String × String) → List (String × String)
  | [] => [(key, value)]
  | (k, v) :: rest =>
    if k = key then (key, value) :: rest
    else if key < k then (key, value) :: (k, v) :: rest
    else (k, v) :: insertSorted key value rest

def set (o : ConnectionOptions) (key value : String) : ConnectionOptions :=
  { o with extra := insertSorted key value o.extra }

/-- A text without an expected beginning, or the text itself if it begins otherwise. -/
def without (beginning : String) (cs : List Char) : List Char :=
  (Text.after? beginning.toList cs).getD cs

def path (o : ConnectionOptions) : String :=
  String.ofList (without "file:" (without "sqlite:" (without "sqlite://" o.url.toList)))

def isInMemory (o : ConnectionOptions) : Bool :=
  o.path == ":memory:" || o.path == ""

def pragmas (o : ConnectionOptions) : List String :=
  ("PRAGMA foreign_keys = " ++ if o.foreignKeys then "ON" else "OFF")
    :: ("PRAGMA busy_timeout = " ++ natText o.busyTimeout.milliseconds)
    :: o.extra.map fun (key, value) => s!"PRAGMA {key} = {value}"

/-- A key and a value as a member of an object in JSON. -/
def member (key value : String) : String :=
  Text.jsonString key ++ ":" ++ value

def object (members : List String) : String :=
  "\x7b" ++ ",".intercalate members ++ "\x7d"

def key (o : ConnectionOptions) : String :=
  object [
    member "url" (Text.jsonString o.url),
    member "foreign_keys" (if o.foreignKeys then "true" else "false"),
    member "busy_timeout" (object [
      member "secs" (natText o.busyTimeout.seconds),
      member "nanos" (natText o.busyTimeout.nanos)]),
    member "extra" (object (o.extra.map fun (key, value) => member key (Text.jsonString value)))]

end ConnectionOptions

end SchemaMigration
