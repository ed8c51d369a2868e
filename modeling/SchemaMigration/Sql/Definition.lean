import SchemaMigration.Schema.Document
import SchemaMigration.Sql.Quoting

/-! # Definitions in SQL

Columns, constraints, tables and indexes as values, and the statements that create and drop them.
The clauses of a table come in a fixed order: its columns, then its constraints.
-/

namespace SchemaMigration.Sql

open Number (Binary64 int64Text natText)

/-- The declared type of a column. -/
inductive ColumnType
  | text
  | integer
  | real
  | timestamp
  | blob
  deriving DecidableEq, Repr

def ColumnType.sql : ColumnType → String
  | .text => "TEXT"
  | .integer => "INTEGER"
  | .real => "REAL"
  | .timestamp => "TIMESTAMP"
  | .blob => "BLOB"

/-- The value a column takes when none is given. An enum value is stored as its position. -/
inductive DefaultValue
  | currentTimestamp
  | uuid
  | cuid
  | nanoid
  | expression (sql : String)
  | text (value : String)
  | integer (value : Int64)
  | real (value : Binary64)
  | boolean (value : Bool)
  | ordinal (position : Nat)
  deriving DecidableEq, Repr

namespace DefaultValue

/-- An expression for a random UUID of version 4. -/
def uuidExpression : String :=
  "(lower(hex(randomblob(4)) || '-' || hex(randomblob(2)) || '-4' || "
    ++ "substr(hex(randomblob(2)), 2) || '-' || substr('89ab', 1 + (abs(random()) % 4), 1) || "
    ++ "substr(hex(randomblob(2)), 2) || '-' || hex(randomblob(6))))"

/-- An expression for a random identifier that starts with `c`. -/
def cuidExpression : String :=
  "('c' || lower(hex(randomblob(12))))"

/-- An expression for a random identifier of 22 characters. -/
def nanoidExpression : String :=
  "(lower(hex(randomblob(11))))"

def sql : DefaultValue → String
  | .currentTimestamp => "CURRENT_TIMESTAMP"
  | .uuid => uuidExpression
  | .cuid => cuidExpression
  | .nanoid => nanoidExpression
  | .expression sql => "(" ++ sql ++ ")"
  | .text value => quoteText value
  | .integer value => int64Text value
  | .real value => value.text
  | .boolean value => if value then "1" else "0"
  | .ordinal position => natText position

end DefaultValue

/-- The beginning of a constraint, which names it if it has a name. -/
def constraintName : Option String → String
  | some name => "CONSTRAINT " ++ quoteName name ++ " "
  | none => ""

/-- A column. It may itself be the primary key with assigned values, be required, be unique under a
name or none, and have a default value. -/
structure Column where
  name : String
  type : ColumnType
  isAssignedKey : Bool := false
  isRequired : Bool := false
  isUnique : Bool := false
  uniqueName : Option String := none
  default : Option DefaultValue := none
  deriving DecidableEq, Repr

def Column.sql (c : Column) : String :=
  quoteName c.name ++ " " ++ c.type.sql
    ++ (if c.isAssignedKey then " PRIMARY KEY AUTOINCREMENT" else "")
    ++ (if c.isRequired then " NOT NULL" else "")
    ++ (if c.isUnique then " " ++ constraintName c.uniqueName ++ "UNIQUE" else "")
    ++ match c.default with
      | some value => " DEFAULT " ++ value.sql
      | none => ""

/-- A foreign key: columns that refer to columns of another table. -/
structure ForeignKey where
  columns : List String
  table : String
  references : List String
  onDelete : Option ReferentialAction := none
  onUpdate : Option ReferentialAction := none
  deriving DecidableEq, Repr

/-- A clause for a referential action, if there is one. -/
def actionSql (event : String) : Option ReferentialAction → String
  | some action => " ON " ++ event ++ " " ++ action.sql
  | none => ""

def ForeignKey.sql (k : ForeignKey) : String :=
  "FOREIGN KEY (" ++ quoteNames k.columns ++ ") REFERENCES " ++ quoteName k.table ++ "("
    ++ quoteNames k.references ++ ")" ++ actionSql "DELETE" k.onDelete
    ++ actionSql "UPDATE" k.onUpdate

/-- A constraint of a table. -/
inductive Constraint
  | primaryKey (columns : List String)
  | unique (name : Option String) (columns : List String)
  | check (name : Option String) (expression : String)
  | foreignKey (name : Option String) (key : ForeignKey)
  deriving DecidableEq, Repr

def Constraint.sql : Constraint → String
  | .primaryKey columns => "PRIMARY KEY (" ++ quoteNames columns ++ ")"
  | .unique name columns => constraintName name ++ "UNIQUE (" ++ quoteNames columns ++ ")"
  | .check name expression => constraintName name ++ "CHECK (" ++ expression ++ ")"
  | .foreignKey name key => constraintName name ++ key.sql

/-- A table: its columns and its constraints. -/
structure Table where
  name : String
  columns : List Column
  constraints : List Constraint
  deriving DecidableEq, Repr

namespace Table

def clauses (t : Table) : List String :=
  t.columns.map Column.sql ++ t.constraints.map Constraint.sql

def createSql (t : Table) : String :=
  "CREATE TABLE " ++ quoteName t.name ++ " (\n    " ++ ",\n    ".intercalate t.clauses ++ "\n);"

end Table

/-- The statement that drops a table, if it exists. -/
def dropTableSql (table : String) : String :=
  "DROP TABLE IF EXISTS " ++ quoteName table ++ ";"

/-- The statement that adds a column to a table. -/
def addColumnSql (table : String) (column : Column) : String :=
  "ALTER TABLE " ++ quoteName table ++ " ADD COLUMN " ++ column.sql ++ ";"

/-- An index over columns of a table. -/
structure Index where
  name : String
  table : String
  columns : List String
  isUnique : Bool
  deriving DecidableEq, Repr

namespace Index

def createSql (i : Index) : String :=
  "CREATE " ++ (if i.isUnique then "UNIQUE " else "") ++ "INDEX " ++ quoteName i.name ++ " ON "
    ++ quoteName i.table ++ " (" ++ quoteNames i.columns ++ ");"

/-- The statement that drops an index, if it exists. -/
def dropSql (i : Index) : String :=
  "DROP INDEX IF EXISTS " ++ quoteName i.name ++ ";"

end Index

end SchemaMigration.Sql
