import SchemaMigration.Schema.Document
import SchemaMigration.Text.Words

/-! # Names in the database

Tables and columns are named as the schema says, and otherwise by the snake case of the names of
their models and fields. Indexes without a name of their own are named after their table and
columns.
-/

namespace SchemaMigration

open Text (snakeCase)

def Model.tableName (m : Model) : String :=
  m.mapped?.getD (snakeCase m.name.name)

def Field.columnName (f : Field) : String :=
  f.mapped?.getD (snakeCase f.name.name)

/-- The name of the column of a field that is given by its name. A name without a field stands for
its snake case. -/
def Model.columnNameOf (m : Model) (field : String) : String :=
  match m.field? field with
  | some f => f.columnName
  | none => snakeCase field

namespace Layout

/-- The name of an index over columns of a table, when the schema gives none. -/
def defaultIndexName (table : String) (columns : List String) : String :=
  "idx_" ++ table ++ "_" ++ "_".intercalate columns

/-- The name of a unique index over columns of a table, when the schema gives none. -/
def defaultUniqueName (table : String) (columns : List String) : String :=
  "uq_" ++ table ++ "_" ++ "_".intercalate columns

end Layout

end SchemaMigration
