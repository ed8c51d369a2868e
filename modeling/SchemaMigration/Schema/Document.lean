import SchemaMigration.Number.Binary64

/-! # Schema documents

A schema document is a list of declarations in the order they are written: data sources and
generators, which are blocks of settings, and models, enums, composite types and views, which
describe data. Names, attributes and larger parts carry the range of bytes they were read from;
attributes carry their arguments in interpreted form.
-/

namespace SchemaMigration

open Number (Binary64)

/-- A range of bytes, from its first offset to the offset after its last. -/
structure Span where
  start : Nat
  stop : Nat
  deriving DecidableEq, Repr, Inhabited

def Span.length (s : Span) : Nat :=
  s.stop - s.start

/-- A name and where it stands. -/
structure Ident where
  name : String
  span : Span
  deriving DecidableEq, Repr, Inhabited

/-! ## Field types -/

/-- The types of single values that a schema knows by itself. -/
inductive ScalarType
  | string
  | int
  | float
  | boolean
  | dateTime
  | json
  | bytes
  deriving DecidableEq, Repr

namespace ScalarType

/-- The name of a scalar type in a schema. -/
def name : ScalarType → String
  | .string => "String"
  | .int => "Int"
  | .float => "Float"
  | .boolean => "Boolean"
  | .dateTime => "DateTime"
  | .json => "Json"
  | .bytes => "Bytes"

def all : List ScalarType :=
  [.string, .int, .float, .boolean, .dateTime, .json, .bytes]

def ofName? (s : String) : Option ScalarType :=
  all.find? fun t => t.name == s

end ScalarType

/-- The type of a field: a type name, which may be marked as a list and as optional. -/
structure FieldType where
  base : String
  isList : Bool
  isOptional : Bool
  deriving DecidableEq, Repr

namespace FieldType

/-- The scalar type a field type is built on, if it is one. -/
def scalar? (t : FieldType) : Option ScalarType :=
  ScalarType.ofName? t.base

/-- A field type as written, its list mark before its optional mark. -/
def text (t : FieldType) : String :=
  t.base ++ (if t.isList then "[]" else "") ++ (if t.isOptional then "?" else "")

end FieldType

/-! ## Attribute arguments -/

/-- A single value as an attribute argument. -/
inductive Literal
  | string (value : String)
  | int (value : Int64)
  | float (value : Binary64)
  | boolean (value : Bool)
  | ident (name : String)
  deriving DecidableEq, Repr

namespace Literal

/-- Equality of values: of floating-point numbers, numerical equality. -/
def same : Literal → Literal → Bool
  | .float x, .float y => x.same y
  | x, y => x == y

def string? : Literal → Option String
  | .string value => some value
  | _ => none

def int? : Literal → Option Int64
  | .int value => some value
  | _ => none

def boolean? : Literal → Option Bool
  | .boolean value => some value
  | _ => none

def ident? : Literal → Option String
  | .ident name => some name
  | _ => none

end Literal

/-- The functions that may compute a default value. -/
inductive DefaultFunction
  | autoincrement
  | now
  | uuid
  | cuid
  | dbgenerated
  | sequence
  | auto
  | nanoid
  deriving DecidableEq, Repr

namespace DefaultFunction

/-- The name of a default function in a schema. -/
def name : DefaultFunction → String
  | .autoincrement => "autoincrement"
  | .now => "now"
  | .uuid => "uuid"
  | .cuid => "cuid"
  | .dbgenerated => "dbgenerated"
  | .sequence => "sequence"
  | .auto => "auto"
  | .nanoid => "nanoid"

def all : List DefaultFunction :=
  [.autoincrement, .now, .uuid, .cuid, .dbgenerated, .sequence, .auto, .nanoid]

def ofName? (s : String) : Option DefaultFunction :=
  all.find? fun f => f.name == s

/-- Whether the database itself assigns the value, as it does for an identity column. -/
def isIdentity : DefaultFunction → Bool
  | .autoincrement | .sequence | .auto => true
  | _ => false

end DefaultFunction

/-- A call of a default function. Its arguments are kept as written. -/
structure FunctionCall where
  function : DefaultFunction
  arguments : List String
  deriving DecidableEq, Repr

/-- What happens to referencing rows when a referenced row is deleted or updated. -/
inductive ReferentialAction
  | cascade
  | restrict
  | setNull
  | setDefault
  | noAction
  deriving DecidableEq, Repr

namespace ReferentialAction

def keyword : ReferentialAction → String
  | .cascade => "Cascade"
  | .restrict => "Restrict"
  | .setNull => "SetNull"
  | .setDefault => "SetDefault"
  | .noAction => "NoAction"

def all : List ReferentialAction :=
  [.cascade, .restrict, .setNull, .setDefault, .noAction]

def ofKeyword? (s : String) : Option ReferentialAction :=
  all.find? fun a => a.keyword == s

def sql : ReferentialAction → String
  | .cascade => "CASCADE"
  | .restrict => "RESTRICT"
  | .setNull => "SET NULL"
  | .setDefault => "SET DEFAULT"
  | .noAction => "NO ACTION"

end ReferentialAction

/-- The arguments of a relation. The keywords of its actions are kept as written. -/
structure RelationArgs where
  fields : List String := []
  references : List String := []
  name : Option String := none
  onDelete : Option String := none
  onUpdate : Option String := none
  deriving DecidableEq, Repr

/-- Whether a relation owns a foreign key: it names the fields of its own model that hold it. -/
def RelationArgs.hasForeignKey (r : RelationArgs) : Bool :=
  !r.fields.isEmpty

/-- The arguments of an index, a unique constraint or a primary key. -/
structure FieldListArgs where
  fields : List String := []
  name : Option String := none
  deriving DecidableEq, Repr

/-- The arguments of a check constraint. The expression is SQL and kept as written. -/
structure CheckArgs where
  expression : String
  name : Option String := none
  deriving DecidableEq, Repr

/-- The arguments of an attribute, interpreted by its name. -/
inductive Arguments
  | none
  | call (call : FunctionCall)
  | literal (value : Literal)
  | relation (relation : RelationArgs)
  | fieldList (list : FieldListArgs)
  | check (check : CheckArgs)
  | raw (text : String)
  deriving DecidableEq, Repr

/-- Equality of arguments, by the values of their literals. -/
def Arguments.same : Arguments → Arguments → Bool
  | .literal x, .literal y => x.same y
  | x, y => x == y

/-- An attribute of a field, an enum value, a model, a view or an enum. -/
structure Attribute where
  name : Ident
  args : Arguments
  span : Span
  deriving DecidableEq, Repr

namespace Attribute

def literal? (a : Attribute) : Option Literal :=
  match a.args with
  | .literal value => some value
  | _ => none

def string? (a : Attribute) : Option String :=
  a.literal?.bind Literal.string?

def call? (a : Attribute) : Option FunctionCall :=
  match a.args with
  | .call call => some call
  | _ => none

def relation? (a : Attribute) : Option RelationArgs :=
  match a.args with
  | .relation relation => some relation
  | _ => none

def fieldList? (a : Attribute) : Option FieldListArgs :=
  match a.args with
  | .fieldList list => some list
  | _ => none

def check? (a : Attribute) : Option CheckArgs :=
  match a.args with
  | .check check => some check
  | _ => none

def named (attributes : List Attribute) (name : String) : List Attribute :=
  attributes.filter fun a => a.name.name == name

/-- The first attribute of a name. -/
def find? (attributes : List Attribute) (name : String) : Option Attribute :=
  attributes.find? fun a => a.name.name == name

def has (attributes : List Attribute) (name : String) : Bool :=
  attributes.any fun a => a.name.name == name

/-- The name in the database that the first `map` attribute gives. -/
def mapped? (attributes : List Attribute) : Option String :=
  (find? attributes "map").bind string?

end Attribute

/-! ## Declarations -/

/-- A field of a model, a view or a composite type. -/
structure Field where
  name : Ident
  type : FieldType
  attributes : List Attribute
  span : Span
  deriving DecidableEq, Repr

namespace Field

/-- Whether a field has an attribute of a name. -/
def has (f : Field) (name : String) : Bool :=
  Attribute.has f.attributes name

def attribute? (f : Field) (name : String) : Option Attribute :=
  Attribute.find? f.attributes name

/-- Whether a field is marked as the primary key. -/
def isId (f : Field) : Bool :=
  f.has "id"

def isUnique (f : Field) : Bool :=
  f.has "unique"

/-- The relation a field stands for. -/
def relation? (f : Field) : Option RelationArgs :=
  (f.attribute? "relation").bind Attribute.relation?

/-- Whether a field stands for a relation with a foreign key. -/
def hasForeignKey (f : Field) : Bool :=
  f.relation?.any RelationArgs.hasForeignKey

def defaultCall? (f : Field) : Option FunctionCall :=
  (f.attribute? "default").bind Attribute.call?

def defaultLiteral? (f : Field) : Option Literal :=
  (f.attribute? "default").bind Attribute.literal?

/-- Whether the database assigns the value as it does for an identity column. -/
def isIdentity (f : Field) : Bool :=
  f.defaultCall?.any fun call => call.function.isIdentity

def mapped? (f : Field) : Option String :=
  Attribute.mapped? f.attributes

end Field

def findField? (fields : List Field) (name : String) : Option Field :=
  fields.find? fun f => f.name.name == name

/-- A model: a kind of record that is stored in a table. -/
structure Model where
  name : Ident
  fields : List Field
  attributes : List Attribute
  span : Span
  deriving DecidableEq, Repr

namespace Model

def field? (m : Model) (name : String) : Option Field :=
  findField? m.fields name

def idFields (m : Model) : List Field :=
  m.fields.filter Field.isId

/-- Whether a model has an attribute of a name. -/
def has (m : Model) (name : String) : Bool :=
  Attribute.has m.attributes name

def attribute? (m : Model) (name : String) : Option Attribute :=
  Attribute.find? m.attributes name

def attributesNamed (m : Model) (name : String) : List Attribute :=
  Attribute.named m.attributes name

def mapped? (m : Model) : Option String :=
  Attribute.mapped? m.attributes

end Model

/-- One value of an enum. -/
structure EnumValue where
  name : Ident
  attributes : List Attribute
  span : Span
  deriving DecidableEq, Repr

/-- The name of an enum value in the database: the mapped name, or else its own. -/
def EnumValue.databaseName (v : EnumValue) : String :=
  (Attribute.mapped? v.attributes).getD v.name.name

/-- An enum: a list of named values. -/
structure EnumType where
  name : Ident
  values : List EnumValue
  attributes : List Attribute
  span : Span
  deriving DecidableEq, Repr

/-- The first value of a name. -/
def EnumType.value? (e : EnumType) (name : String) : Option EnumValue :=
  e.values.find? fun v => v.name.name == name

/-- A composite type: a group of fields without a table. -/
structure CompositeType where
  name : Ident
  fields : List Field
  span : Span
  deriving DecidableEq, Repr

/-- A view: it is read and checked, but no statement is made for it. -/
structure View where
  name : Ident
  fields : List Field
  attributes : List Attribute
  span : Span
  deriving DecidableEq, Repr

/-- A value in a block of settings. Numbers are kept as written. -/
inductive SettingValue
  | string (value : String)
  | number (text : String)
  | boolean (value : Bool)
  | ident (name : String)
  | array (values : List SettingValue)
  | call (function : String) (arguments : List SettingValue)
  deriving Repr, Inhabited

namespace SettingValue

def string? : SettingValue → Option String
  | .string value => some value
  | _ => none

def variableName? : SettingValue → Option String
  | .call "env" (argument :: _) => argument.string?
  | _ => none

end SettingValue

/-- A data source or a generator: a named block of settings, in order and with distinct keys. -/
structure SettingsBlock where
  name : Ident
  properties : List (String × SettingValue)
  span : Span
  deriving Repr

namespace SettingsBlock

def get? (b : SettingsBlock) (key : String) : Option SettingValue :=
  b.properties.lookup key

def provider? (b : SettingsBlock) : Option String :=
  (b.get? "provider").bind SettingValue.string?

/-- The database address. A call of `env` takes it from the environment. -/
def url? (b : SettingsBlock) (environment : String → Option String) : Option String :=
  (b.get? "url").bind fun
    | .string url => some url
    | value => value.variableName?.bind environment

end SettingsBlock

/-- A declaration of a schema document. -/
inductive Declaration
  | datasource (block : SettingsBlock)
  | generator (block : SettingsBlock)
  | model (model : Model)
  | enum (enum : EnumType)
  | composite (type : CompositeType)
  | view (view : View)
  deriving Repr

namespace Declaration

def name : Declaration → String
  | .datasource b | .generator b => b.name.name
  | .model m => m.name.name
  | .enum e => e.name.name
  | .composite t => t.name.name
  | .view v => v.name.name

def kind : Declaration → String
  | .datasource _ => "datasource"
  | .generator _ => "generator"
  | .model _ => "model"
  | .enum _ => "enum"
  | .composite _ => "type"
  | .view _ => "view"

def model? : Declaration → Option Model
  | .model m => some m
  | _ => none

def enum? : Declaration → Option EnumType
  | .enum e => some e
  | _ => none

def composite? : Declaration → Option CompositeType
  | .composite t => some t
  | _ => none

def view? : Declaration → Option View
  | .view v => some v
  | _ => none

def datasource? : Declaration → Option SettingsBlock
  | .datasource b => some b
  | _ => none

def generator? : Declaration → Option SettingsBlock
  | .generator b => some b
  | _ => none

end Declaration

/-- A schema document: its declarations in the order they are written. -/
structure Document where
  declarations : List Declaration := []
  deriving Repr, Inhabited

namespace Document

def models (d : Document) : List Model :=
  d.declarations.filterMap Declaration.model?

def enums (d : Document) : List EnumType :=
  d.declarations.filterMap Declaration.enum?

def composites (d : Document) : List CompositeType :=
  d.declarations.filterMap Declaration.composite?

def views (d : Document) : List View :=
  d.declarations.filterMap Declaration.view?

def generators (d : Document) : List SettingsBlock :=
  d.declarations.filterMap Declaration.generator?

def datasource? (d : Document) : Option SettingsBlock :=
  d.declarations.findSome? Declaration.datasource?

def model? (d : Document) (name : String) : Option Model :=
  d.models.find? fun m => m.name.name == name

def enum? (d : Document) (name : String) : Option EnumType :=
  d.enums.find? fun e => e.name.name == name

def isModel (d : Document) (name : String) : Bool :=
  (d.model? name).isSome

end Document

end SchemaMigration
