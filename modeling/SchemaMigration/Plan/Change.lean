import SchemaMigration.Number.Integer
import SchemaMigration.Sql.Definition
import SchemaMigration.Text.Blank

/-! # Changes

A plan is a list of changes, each carried out by one SQL statement. Tables and indexes are created
and dropped, and columns are added; nothing else is done to an existing table.
-/

namespace SchemaMigration

open Sql (Column Index Table)

/-- The kinds of changes, in the order of a summary. -/
inductive ChangeKind
  | createTable
  | dropTable
  | addColumn
  | createIndex
  | dropIndex
  deriving DecidableEq, Repr

namespace ChangeKind

/-- All kinds of changes, in the order of a summary. -/
def all : List ChangeKind :=
  [.createTable, .dropTable, .addColumn, .createIndex, .dropIndex]

def words : ChangeKind → String × String
  | .createTable => ("Create", "tables")
  | .dropTable => ("Drop", "tables")
  | .addColumn => ("Add", "columns")
  | .createIndex => ("Create", "indexes")
  | .dropIndex => ("Drop", "indexes")

end ChangeKind

/-- One change to a database. -/
inductive Change
  | createTable (model : String) (table : Table)
  | dropTable (model table : String)
  | addColumn (table : String) (column : Column)
  | createIndex (index : Index)
  | dropIndex (index : Index)
  deriving DecidableEq, Repr

namespace Change

def kind : Change → ChangeKind
  | .createTable .. => .createTable
  | .dropTable .. => .dropTable
  | .addColumn .. => .addColumn
  | .createIndex _ => .createIndex
  | .dropIndex _ => .dropIndex

def table : Change → String
  | .createTable _ table => table.name
  | .dropTable _ table => table
  | .addColumn table _ => table
  | .createIndex index | .dropIndex index => index.table

/-- What a change is named after: the model of a table, a column, or an index. -/
def subject : Change → String
  | .createTable model _ | .dropTable model _ => model
  | .addColumn _ column => column.name
  | .createIndex index | .dropIndex index => index.name

def sql : Change → String
  | .createTable _ table => table.createSql
  | .dropTable _ table => Sql.dropTableSql table
  | .addColumn table column => Sql.addColumnSql table column
  | .createIndex index => index.createSql
  | .dropIndex index => index.dropSql

def describe : Change → String
  | .createTable model table => s!"Create table {table.name} (model {model})"
  | .dropTable model table => s!"Drop table {table} (model {model})"
  | .addColumn table column => s!"Add column {table}.{column.name}"
  | .createIndex index => s!"Create index {index.name} on {index.table}"
  | .dropIndex index => s!"Drop index {index.name} on {index.table}"

/-- How many changes of a kind there are, in words, unless there are none. -/
def countText? (changes : List Change) (kind : ChangeKind) : Option String :=
  let count := changes.countP fun c => c.kind = kind
  let (verb, noun) := kind.words
  if count = 0 then none else some (verb ++ " " ++ Number.natText count ++ " " ++ noun)

def summary (changes : List Change) : String :=
  match ChangeKind.all.filterMap (countText? changes) with
  | [] => "No changes"
  | counts => ", ".intercalate counts

/-- The name of a migration on one line: its control characters become spaces. -/
def headerText (name : String) : String :=
  String.ofList (name.toList.map fun c => if Text.isControl c then ' ' else c)

/-- A script that carries out changes: a comment with the name of the migration, then the statements
in order. -/
def script (name : String) (changes : List Change) : String :=
  "-- Migration: " ++ headerText name ++ "\n\n" ++ "\n\n".intercalate (changes.map sql) ++ "\n"

end Change

end SchemaMigration
