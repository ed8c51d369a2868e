import SchemaMigration.Layout.Naming
import SchemaMigration.Schema.ArgumentText.Piece
import SchemaMigration.Schema.Error
import SchemaMigration.Sql.Definition
import SchemaMigration.Text.Quoted

/-! # Tables of models

How a model is laid out in the database. Its fields of simple types become columns; fields that lead
to other models do not. A single field marked as the key whose values the database assigns is the
primary key by its own column, any other key is a constraint of the table. Foreign keys come from
relations that name fields of their own model.
-/

namespace SchemaMigration

open Sql (Column ColumnType Constraint DefaultValue ForeignKey Index Table)

/-- The column type for a field. Values of enums are stored as integers. -/
def Field.columnType (f : Field) : ColumnType :=
  match f.type.scalar? with
  | some .string | some .json => .text
  | some .int | some .boolean => .integer
  | some .float => .real
  | some .dateTime => .timestamp
  | some .bytes => .blob
  | none => .integer

def Arguments.shown : Arguments → String
  | .raw text => "Raw(" ++ Text.quoted text ++ ")"
  | .call _ => "Function"
  | .literal _ => "Literal"
  | .relation _ => "Relation"
  | .fieldList _ => "FieldList"
  | .check _ => "Check"
  | .none => "None"

/-- Whether a field becomes a column. Lists, relations and fields of the type of a model do not. -/
def Document.isColumn (d : Document) (f : Field) : Bool :=
  !f.type.isList && f.relation?.isNone && !d.isModel f.type.base

/-- The fields of a model that become columns. -/
def Document.columnFields (d : Document) (m : Model) : List Field :=
  m.fields.filter d.isColumn

/-! ## Columns -/

/-- The default value that a literal stands for. An identifier is the name of an enum value and
stands for its position. -/
def Document.literalDefault (d : Document) (f : Field) :
    Literal → Except FieldFault DefaultValue
  | .string value => .ok (.text value)
  | .int value => .ok (.integer value)
  | .float value => .ok (.real value)
  | .boolean value => .ok (.boolean value)
  | .ident value =>
    match d.enum? f.type.base with
    | none => .error (.notAnEnum value f.type.base)
    | some e =>
      match e.values.findIdx? fun v => v.name.name == value with
      | some position => .ok (.ordinal position)
      | none => .error (.noSuchValue f.type.base value)

/-- The default value that a function call stands for. A value that the database assigns is no
default value. -/
def FunctionCall.default (call : FunctionCall) : Except FieldFault (Option DefaultValue) :=
  match call.function with
  | .now => .ok (some .currentTimestamp)
  | .uuid => .ok (some .uuid)
  | .cuid => .ok (some .cuid)
  | .nanoid => .ok (some .nanoid)
  | .dbgenerated =>
    match call.literalAt? 0 with
    | some (.string sql) => .ok (some (.expression sql))
    | _ => .error .missingExpression
  | .autoincrement | .sequence | .auto => .ok none

def Document.defaultValue (d : Document) (f : Field) : Except FieldFault (Option DefaultValue) :=
  match f.attribute? "default" with
  | none => .ok none
  | some a =>
    match a.args with
    | .call call => call.default
    | .literal literal => (d.literalDefault f literal).map some
    | args => .error (.unsupportedDefault args.shown)

/-- Succeeds when the database may assign the values of a field: only integers that are the key. -/
def Field.checkIdentity (f : Field) : Except FieldFault Unit :=
  if !f.isIdentity then .ok ()
  else if !f.isId then .error .identityWithoutId
  else if f.type.scalar? ≠ some .int then .error .identityNotInt
  else .ok ()

/-- The column of a field, without a key or a unique constraint. -/
def Document.plainColumn (d : Document) (f : Field) : Except FieldFault Column := do
  f.checkIdentity
  let default ← d.defaultValue f
  return {
    name := f.columnName, type := f.columnType, isRequired := !f.type.isOptional, default }

/-- The name that a field's attribute gives to its constraint or index. -/
def Field.attributeName? (f : Field) (label : String) : Option String :=
  (f.attribute? label).bind fun a => a.fieldList?.bind FieldListArgs.name

/-- The column of a field with its unique constraint, and marked as the key if it is. -/
def Document.column (d : Document) (f : Field) (isAssignedKey : Bool) :
    Except FieldFault Column := do
  let column ← d.plainColumn f
  return { column with
    isAssignedKey, isUnique := f.isUnique, uniqueName := f.attributeName? "unique" }

/-! ## Constraints -/

/-- The name of the field that is the primary key by its own column. -/
def Model.assignedKey? (m : Model) : Option String :=
  match m.idFields with
  | [f] => if f.isIdentity then some f.name.name else none
  | _ => none

/-- The columns of the primary key that is a constraint of the table. -/
def Model.primaryKey? (m : Model) : Option (List String) :=
  match (m.attribute? "id").bind Attribute.fieldList? with
  | some list => some (list.fields.map m.columnNameOf)
  | none =>
    if m.assignedKey?.isSome || m.idFields.isEmpty then none
    else some (m.idFields.map Field.columnName)

def Model.uniqueConstraints (m : Model) : List Constraint :=
  (m.attributesNamed "unique").filterMap fun a =>
    a.fieldList?.map fun list => .unique list.name (list.fields.map m.columnNameOf)

def Model.checkConstraints (m : Model) : Except ModelFault (List Constraint) :=
  (m.attributesNamed "check").mapM fun a =>
    match a.check? with
    | some check => .ok (.check check.name check.expression)
    | none => .error .checkWithoutExpression

/-- The referential action of a keyword that may be absent. -/
def referentialAction (keyword : Option String) :
    Except RelationFault (Option ReferentialAction) :=
  match keyword with
  | none => .ok none
  | some keyword =>
    match ReferentialAction.ofKeyword? keyword with
    | some action => .ok (some action)
    | none => .error (.unknownAction keyword)

def Document.foreignKey (d : Document) (m : Model) (f : Field) :
    Except RelationFault (Option Constraint) :=
  match f.relation? with
  | none => .ok none
  | some relation =>
    if !relation.hasForeignKey then .ok none
    else
      match d.model? f.type.base with
      | none => .error (.notAModel f.type.base)
      | some target => do
        let onDelete ← referentialAction relation.onDelete
        let onUpdate ← referentialAction relation.onUpdate
        return some (.foreignKey relation.name {
          columns := relation.fields.map m.columnNameOf
          table := target.tableName
          references := relation.references.map target.columnNameOf
          onDelete
          onUpdate })

/-! ## Tables and indexes -/

def Document.columns (d : Document) (m : Model) : Except SchemaError (List Column) :=
  (d.columnFields m).mapM fun f =>
    (d.column f (m.assignedKey? == some f.name.name)).mapError
      (.invalidField m.name.name f.name.name ·)

def Document.foreignKeys (d : Document) (m : Model) : Except SchemaError (List Constraint) := do
  let keys ← m.fields.mapM fun f =>
    (d.foreignKey m f).mapError (.invalidRelation m.name.name f.name.name ·)
  return keys.filterMap id

/-- The table of a model. Its constraints are the primary key, the unique constraints, the checks
and the foreign keys, in this order. -/
def Document.table (d : Document) (m : Model) : Except SchemaError Table := do
  let columns ← d.columns m
  if columns.isEmpty then throw (.invalidModel m.name.name .noColumns)
  let checks ← m.checkConstraints.mapError (.invalidModel m.name.name ·)
  let foreignKeys ← d.foreignKeys m
  return {
    name := m.tableName
    columns
    constraints :=
      (m.primaryKey?.map Constraint.primaryKey).toList ++ m.uniqueConstraints ++ checks
        ++ foreignKeys }

def Model.index (m : Model) (name : Option String) (columns : List String) : Index :=
  { name := name.getD (Layout.defaultIndexName m.tableName columns)
    table := m.tableName
    columns
    isUnique := false }

/-- The indexes of a model's table: those of single fields, then those of the model. -/
def Document.indexes (d : Document) (m : Model) : List Index :=
  (((d.columnFields m).filter fun f => f.has "index").map fun f =>
      m.index (f.attributeName? "index") [f.columnName])
    ++ (m.attributesNamed "index").filterMap fun a =>
      a.fieldList?.map fun list => m.index list.name (list.fields.map m.columnNameOf)

/-- The column that is added to an existing table for a new field. An existing table keeps its key,
and a unique constraint becomes an index. -/
def Document.addedColumn (d : Document) (m : Model) (f : Field) : Except SchemaError Column :=
  (d.plainColumn f).mapError (.invalidField m.name.name f.name.name ·)

/-- The unique index that stands for the unique constraint of an added field. -/
def Model.uniqueIndex? (m : Model) (f : Field) : Option Index :=
  if f.isUnique then
    some {
      name := (f.attributeName? "unique").getD
        (Layout.defaultUniqueName m.tableName [f.columnName])
      table := m.tableName
      columns := [f.columnName]
      isUnique := true }
  else none

end SchemaMigration
