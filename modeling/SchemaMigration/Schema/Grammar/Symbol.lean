/-! # Symbols of the schema grammar

The symbols that a syntax error can name as expected, in the order in which the grammar declares
them; the end of the text comes before all others. A message describes the common ones in plain
words and gives the rest by the name of their rule.
-/

namespace SchemaMigration

/-- The kinds of blocks a document consists of, in the order in which they are tried. -/
inductive BlockKind
  | datasource
  | generator
  | model
  | enum
  | type
  | view
  deriving DecidableEq, Repr

namespace BlockKind

/-- All kinds of blocks, in the order in which they are tried. -/
def all : List BlockKind :=
  [.datasource, .generator, .model, .enum, .type, .view]

def keyword : BlockKind → String
  | .datasource => "datasource"
  | .generator => "generator"
  | .model => "model"
  | .enum => "enum"
  | .type => "type"
  | .view => "view"

end BlockKind

namespace Grammar

/-- A symbol of the grammar. -/
inductive Symbol
  | endOfInput
  | schema
  | keyword (kind : BlockKind)
  | identifier
  | block (kind : BlockKind)
  | assignment
  | functionCall
  | array
  | stringLiteral
  | stringInner
  | number
  | boolean
  | field
  | fieldType
  | listMarker
  | optionalMarker
  | enumValue
  | fieldAttribute
  | modelAttribute
  | attributeName
  | attributeArgs
  | rawArgument
  deriving DecidableEq, Repr

namespace Symbol

def all : List Symbol :=
  [.endOfInput, .schema, .keyword .datasource, .keyword .generator, .keyword .model,
    .keyword .enum, .keyword .type, .keyword .view, .identifier, .block .datasource,
    .block .generator, .assignment, .functionCall, .array, .stringLiteral, .stringInner, .number,
    .boolean, .block .model, .block .view, .block .type, .field, .fieldType, .listMarker,
    .optionalMarker, .block .enum, .enumValue, .fieldAttribute, .modelAttribute, .attributeName,
    .attributeArgs, .rawArgument]

def describe : Symbol → String
  | .endOfInput => "end of input"
  | .schema => "schema"
  | .keyword _ => "declaration"
  | .identifier => "identifier"
  | .block kind => kind.keyword ++ "_def"
  | .assignment => "assignment"
  | .functionCall => "function_call"
  | .array => "array"
  | .stringLiteral => "string"
  | .stringInner => "string_inner"
  | .number => "number"
  | .boolean => "boolean"
  | .field => "field"
  | .fieldType => "field type"
  | .listMarker => "list_marker"
  | .optionalMarker => "optional_marker"
  | .enumValue => "enum value"
  | .fieldAttribute => "field attribute"
  | .modelAttribute => "model attribute"
  | .attributeName => "attribute_name"
  | .attributeArgs => "attribute arguments"
  | .rawArgument => "raw_argument"

/-- A list of symbols in the order of their declaration, each once. -/
def inOrder (symbols : List Symbol) : List Symbol :=
  all.filter fun s => symbols.contains s

end Symbol

/-- Descriptions as an enumeration: one alone, two joined by `or`, more with commas and a last
`or`. -/
def enumerate : List String → String
  | [] => ""
  | [a] => a
  | [a, b] => a ++ " or " ++ b
  | items => ", ".intercalate items.dropLast ++ ", or " ++ items.getLastD ""

def expectation (symbols : List Symbol) : String :=
  "expected " ++ enumerate ((Symbol.inOrder symbols).map Symbol.describe)

end Grammar

end SchemaMigration
