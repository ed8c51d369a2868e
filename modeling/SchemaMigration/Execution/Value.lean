import SchemaMigration.Number.Binary64

/-! # Values and rows

The values that a database takes as parameters and gives in rows. A floating-point value may be no
number at all.
-/

namespace SchemaMigration

open Number (Binary64)

/-- A value of a database. -/
inductive Value
  | null
  | integer (value : Int64)
  | real (value : Binary64)
  | notANumber
  | text (value : String)
  | blob (bytes : List UInt8)
  deriving DecidableEq, Repr

namespace Value

def text? : Value → Option String
  | .text value => some value
  | _ => none

def integer? : Value → Option Int64
  | .integer value => some value
  | _ => none

def realText? : Value → Option String
  | .real value => some value.text
  | .notANumber => some "NaN"
  | _ => none

def ofRealText? (s : String) : Option Value :=
  if s = "NaN" then some .notANumber else (Binary64.ofText? s).map .real

def isNull : Value → Bool
  | .null => true
  | _ => false

end Value

/-- A row of a result: the names of its columns, and a value for each. -/
structure Row where
  columns : List String
  values : List Value
  deriving DecidableEq, Repr

namespace Row

/-- The value of the first column of a name. -/
def get? (r : Row) (column : String) : Option Value :=
  (r.columns.findIdx? (· == column)).bind fun i => r.values[i]?

def text? (r : Row) (column : String) : Option String :=
  (r.get? column).bind Value.text?

def integer? (r : Row) (column : String) : Option Int64 :=
  (r.get? column).bind Value.integer?

end Row

end SchemaMigration
