import SchemaMigration.Toml.Value

/-! # Records in TOML

How a record with named fields is read from a value: from a table, which may have no other keys, or
from an array of the fields in their order, in which the last ones may be missing and what is left
over is ignored. A field that is missing in a table may be optional; one that is missing in an array
needs a default.
-/

namespace SchemaMigration.Settings

def string? : Toml.Value → Option String
  | .string value => some value
  | _ => none

/-- A record as it is written: its fields by name, or in their order. -/
inductive RecordText
  | named (fields : Toml.Table)
  | positional (values : List Toml.Value)

/-- A value as a record with fields of some names. -/
def record? (names : List String) : Toml.Value → Option RecordText
  | .table _ fields =>
    if fields.all fun field => names.contains field.1 then some (.named fields) else none
  | .array values => some (.positional values)
  | .tables tables => some (.positional (tables.map (.table .explicit)))
  | _ => none

namespace RecordText

/-- The value of a field, given by name and by position. -/
def field? (r : RecordText) (name : String) (position : Nat) : Option Toml.Value :=
  match r with
  | .named fields => fields.lookup name
  | .positional values => values[position]?

def withDefault {α : Type} (r : RecordText) (name : String) (position : Nat)
    (decode : Toml.Value → Option α) (default : α) : Option α :=
  match r.field? name position with
  | some value => decode value
  | none => some default

/-- A field that is optional. In an array it must be there. -/
def optional {α : Type} (r : RecordText) (name : String) (position : Nat)
    (decode : Toml.Value → Option α) : Option (Option α) :=
  match r.field? name position, r with
  | some value, _ => (decode value).map some
  | none, .named _ => some none
  | none, .positional _ => none

end RecordText

end SchemaMigration.Settings
