import SchemaMigration.Schema.Document
import SchemaMigration.Schema.Grammar.Symbol
import SchemaMigration.Text.Position

/-! # Schema errors

What can be wrong with a schema, a change to one, or the settings, each as a value that names the
cause. The wording of every cause is in one function beside it. Each kind of error also admits a
cause stated in words by the caller.
-/

namespace SchemaMigration

open Text (Position)

/-- What can be wrong with the arguments of an attribute. -/
inductive ArgumentFault
  | unexpectedInRelation (piece : String)
  | unexpectedInFieldList (piece : String)
  | missingCheckExpression
  | unknownFunction (name : String)
  | notFieldName (item : String)
  deriving DecidableEq, Repr

def ArgumentFault.message : ArgumentFault → String
  | .unexpectedInRelation piece => s!"unexpected relation argument `{piece}`"
  | .unexpectedInFieldList piece => s!"unexpected argument `{piece}`, expected a field list"
  | .missingCheckExpression => "check constraint requires an expression"
  | .unknownFunction name => s!"unknown default function `{name}()`"
  | .notFieldName item => s!"`{item}` is not a field name"

/-- What can be wrong with a schema text at one place. -/
inductive SyntaxFault
  | expected (symbols : List Grammar.Symbol)
  | badArguments (label : String) (fault : ArgumentFault)
  | duplicateProperty (key block : String)
  | stated (text : String)
  deriving DecidableEq, Repr

/-- The wording of a fault in a schema text. -/
def SyntaxFault.message : SyntaxFault → String
  | .expected symbols => Grammar.expectation symbols
  | .badArguments label fault => s!"invalid arguments for `{label}`: {fault.message}"
  | .duplicateProperty key block => s!"duplicate property `{key}` in `{block}`"
  | .stated text => text

/-- What can be wrong with a model. -/
inductive ModelFault
  | severalIds
  | mixedIds
  | emptyFieldList (label : String)
  | noColumns
  | checkWithoutExpression
  | stated (text : String)
  deriving DecidableEq, Repr

def ModelFault.message : ModelFault → String
  | .severalIds => "multiple fields marked @id; use @@id([...]) for a composite key"
  | .mixedIds => "cannot combine a field-level @id with @@id"
  | .emptyFieldList label => s!"@@{label} requires a non-empty field list"
  | .noColumns => "model has no columns"
  | .checkWithoutExpression => "@@check requires an expression"
  | .stated text => text

/-- What can be wrong with a field. -/
inductive FieldFault
  | undeclared (label : String)
  | identityWithoutId
  | identityNotInt
  | missingExpression
  | notAnEnum (value type : String)
  | noSuchValue (type value : String)
  | unsupportedDefault (shown : String)
  | stated (text : String)
  deriving DecidableEq, Repr

def FieldFault.message : FieldFault → String
  | .undeclared label => s!"referenced by @@{label} but not declared"
  | .identityWithoutId => "identity defaults are only allowed on the @id field"
  | .identityNotInt => "identity defaults require an Int field"
  | .missingExpression => "dbgenerated() requires a string expression"
  | .notAnEnum value type => s!"`{value}` is not a valid default for `{type}`"
  | .noSuchValue type value => s!"enum `{type}` has no value `{value}`"
  | .unsupportedDefault shown => s!"unsupported default value {shown}"
  | .stated text => text

/-- What can be wrong with a relation. -/
inductive RelationFault
  | noLocalField (field model : String)
  | unevenLists (fields references : Nat)
  | noReferencedField (field model : String)
  | notAModel (name : String)
  | unknownAction (keyword : String)
  | stated (text : String)
  deriving DecidableEq, Repr

def RelationFault.message : RelationFault → String
  | .noLocalField field model => s!"field `{field}` does not exist on model `{model}`"
  | .unevenLists fields references =>
    s!"`fields` lists {fields} field(s) but `references` lists {references}"
  | .noReferencedField field model =>
    s!"referenced field `{field}` does not exist on model `{model}`"
  | .notAModel name => s!"`{name}` is not a model"
  | .unknownAction keyword => s!"unknown referential action `{keyword}`"
  | .stated text => text

/-- What kind of change to a schema cannot be carried out in place. -/
inductive ChangeFault
  | tableConstraint
  | removedColumn
  | alteredField
  | stated (text : String)
  deriving DecidableEq, Repr

/-- The wording of a change that cannot be carried out. -/
def ChangeFault.message : ChangeFault → String
  | .tableConstraint => "table-level constraints cannot be changed in place"
  | .removedColumn => "removing a column or foreign key is not supported"
  | .alteredField => "changing a field's type or attributes is not supported"
  | .stated text => text

/-- An error in a schema text and the place it points at. -/
structure SyntaxError where
  span : Span
  position : Position
  fault : SyntaxFault
  deriving DecidableEq, Repr

/-- An error about a schema, a change to one, or the settings. -/
inductive SchemaError
  | unreadable (path : String)
  | syntactic (error : SyntaxError)
  | invalidModel (name : String) (fault : ModelFault)
  | invalidField (model field : String) (fault : FieldFault)
  | invalidRelation (model field : String) (fault : RelationFault)
  | duplicate (kind name : String)
  | unsupportedChange (model field : String) (fault : ChangeFault)
  | configuration (text : String)
  | malformedToml
  | several (count : Nat) (errors : List SchemaError)
  deriving Repr

namespace SchemaError

def message : SchemaError → String
  | .unreadable path => s!"failed to read file: {path}"
  | .syntactic e => s!"syntax error at {e.position.line}:{e.position.column}: {e.fault.message}"
  | .invalidModel name fault => s!"invalid model `{name}`: {fault.message}"
  | .invalidField model field fault => s!"invalid field `{model}.{field}`: {fault.message}"
  | .invalidRelation model field fault => s!"invalid relation `{model}.{field}`: {fault.message}"
  | .duplicate kind name => s!"duplicate {kind} `{name}`"
  | .unsupportedChange model field fault =>
    s!"unsupported change to `{model}.{field}`: {fault.message}"
  | .configuration text => s!"configuration error: {text}"
  | .malformedToml => "failed to parse TOML"
  | .several count _ => s!"schema validation failed with {count} error(s)"

/-- The stable code of an error, for tools. -/
def code : SchemaError → String
  | .unreadable _ => "keel::schema::io_error"
  | .syntactic _ => "keel::schema::syntax_error"
  | .invalidModel .. => "keel::schema::invalid_model"
  | .invalidField .. => "keel::schema::invalid_field"
  | .invalidRelation .. => "keel::schema::invalid_relation"
  | .duplicate .. => "keel::schema::duplicate"
  | .unsupportedChange .. => "keel::schema::unsupported_change"
  | .configuration _ => "keel::schema::config_error"
  | .malformedToml => "keel::schema::toml_error"
  | .several .. => "keel::schema::validation_failed"

def help? : SchemaError → Option String
  | .unsupportedChange .. => some "write a hand-authored migration that rebuilds the table"
  | _ => none

/-- Whether an error reports a well-formed schema without a meaning. -/
def isSemantic : SchemaError → Bool
  | .invalidModel .. | .invalidField .. | .invalidRelation .. | .duplicate ..
  | .unsupportedChange .. | .several .. => true
  | _ => false

def isSyntactic : SchemaError → Bool
  | .syntactic _ => true
  | _ => false

end SchemaError

end SchemaMigration
