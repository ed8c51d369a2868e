import SchemaMigration.Schema.Grammar.Lexeme
import SchemaMigration.Schema.Grammar.Parser

/-! # The outline of a document

The grammar of the schema language. Reading a text by it gives an outline: the blocks of the
document with their members in the order they are written, every attribute with its arguments as
raw text. An outline has the form of a document but not yet its meaning.
-/

namespace SchemaMigration.Grammar

open SchemaMigration.Grammar.Parser

/-- An attribute as written. The arguments are the raw text between its parentheses. -/
structure AttributeText where
  name : Ident
  arguments : Option String
  span : Span
  deriving DecidableEq, Repr

/-- A member of a block: a setting, a field, an enum value, or an attribute of the block itself. -/
inductive Member
  | property (key : String) (value : SettingValue) (span : Span)
  | field (name : Ident) (type : FieldType) (attributes : List AttributeText) (span : Span)
  | value (name : Ident) (attributes : List AttributeText) (span : Span)
  | attribute (written : AttributeText)
  deriving Repr

/-- A block: its kind, its name and its members. -/
structure Block where
  kind : BlockKind
  name : Ident
  members : List Member
  span : Span
  deriving Repr

/-! ## Settings -/

def identifier : Parser Ident :=
  symbol .identifier (lexeme Text.word)

def gapThen {α : Type} (p : Parser α) : Parser α := do
  gap
  p

def valueList (value : Parser SettingValue) : Parser (List SettingValue) := do
  let head ← value
  gap
  let tail ← many do
    exactly ","
    gapThen value
  return head :: tail

/-- A call: the name of a function and values in parentheses. -/
def functionCall (value : Parser SettingValue) : Parser SettingValue :=
  symbol .functionCall do
    let function ← identifier
    gapThen (exactly "(")
    let values ← gapThen (optional (valueList value))
    gapThen (exactly ")")
    return .call function.name (values.getD [])

/-- An array: values in brackets, of which the last may be followed by a comma. -/
def array (value : Parser SettingValue) : Parser SettingValue :=
  symbol .array do
    exactly "["
    let values ← gapThen <| optional do
      let values ← valueList value
      let _ ← gapThen (optional (exactly ","))
      return values
    gapThen (exactly "]")
    return .array (values.getD [])

/-- The text of a string with its escapes resolved: a backslash before `n`, `t` or `r` stands for
the control character, and before any other character for that character. -/
def unescape : List Char → List Char
  | '\\' :: 'n' :: cs => '\n' :: unescape cs
  | '\\' :: 't' :: cs => '\t' :: unescape cs
  | '\\' :: 'r' :: cs => '\r' :: unescape cs
  | '\\' :: c :: cs => c :: unescape cs
  | c :: cs => c :: unescape cs
  | [] => []

def stringLiteral : Parser SettingValue :=
  symbol .stringLiteral do
    exactly "\""
    let inner ← symbol .stringInner (lexeme fun cs => some (Lexeme.stringInner cs))
    exactly "\""
    return .string (String.ofList (unescape inner.name.toList))

/-- A value that is a number, a truth value or an identifier, in this order. -/
def plainValue : Parser SettingValue :=
  first [
    (do return .number (← symbol .number (lexeme Lexeme.number)).name),
    (do return .boolean ((← symbol .boolean (lexeme Lexeme.boolean)).name == "true")),
    (do return .ident (← identifier).name)]

/-- A value whose arrays and calls are nested less deep than a bound. -/
def value : Nat → Parser SettingValue
  | 0, c, t => fail c t
  | depth + 1, c, t =>
    first [functionCall (value depth), array (value depth), stringLiteral, plainValue] c t

/-- A value. It is not nested deeper than the text is long. -/
def anyValue : Parser SettingValue :=
  fun c t => value (c.rest.length + 1) c t

/-- A setting: a key, an equals sign and a value. -/
def assignment : Parser Member := do
  let ((key, value), span) ← located <| symbol .assignment do
    let key ← identifier
    gapThen (exactly "=")
    let value ← gapThen anyValue
    return (key, value)
  return .property key.name value span

/-! ## Attributes and fields -/

/-- The raw text of arguments in parentheses. -/
def attributeArgs : Parser String :=
  symbol .attributeArgs do
    exactly "("
    let raw ← symbol .rawArgument (lexeme Lexeme.rawArgument)
    exactly ")"
    return raw.name

/-- The name of an attribute and its arguments, if it has parentheses. -/
def attributeBody : Parser (Ident × Option String) := do
  let name ← symbol .attributeName (lexeme Lexeme.attributeName)
  let arguments ← optional attributeArgs
  return (name, arguments)

/-- An attribute of a field or an enum value. -/
def fieldAttribute : Parser AttributeText := do
  let ((name, arguments), span) ← located <| symbol .fieldAttribute do
    exactly "@"
    notNext '@'
    attributeBody
  return ⟨name, arguments, span⟩

def blockAttribute : Parser Member := do
  let ((name, arguments), span) ← located <| symbol .modelAttribute do
    exactly "@@"
    attributeBody
  return .attribute ⟨name, arguments, span⟩

def fieldType : Parser FieldType :=
  symbol .fieldType do
    let base ← identifier
    let list ← optional (symbol .listMarker (exactly "[]"))
    let opt ← optional (symbol .optionalMarker (exactly "?"))
    return ⟨base.name, list.isSome, opt.isSome⟩

/-- A field: its name, its type and its attributes. -/
def field : Parser Member := do
  let ((name, type, attributes), span) ← located <| symbol .field do
    let name ← identifier
    let type ← gapThen fieldType
    let attributes ← gapThen (many fieldAttribute)
    return (name, type, attributes)
  return .field name type attributes span

/-- A value of an enum: its name and its attributes. -/
def enumValue : Parser Member := do
  let ((name, attributes), span) ← located <| symbol .enumValue do
    let name ← identifier
    let attributes ← gapThen (many fieldAttribute)
    return (name, attributes)
  return .value name attributes span

/-! ## Blocks -/

/-- The members that a kind of block may have. -/
def member : BlockKind → Parser Member
  | .datasource | .generator => assignment
  | .model | .view => first [blockAttribute, field]
  | .type => field
  | .enum => first [blockAttribute, enumValue]

/-- A block of a kind: its keyword, its name, and its members in braces. -/
def block (kind : BlockKind) : Parser Block := do
  let ((name, members), span) ← located <| symbol (.block kind) do
    let _ ← symbol (.keyword kind) (lexeme (Lexeme.keyword kind))
    let name ← gapThen identifier
    gapThen (exactly "\x7b")
    let members ← gapThen (many (member kind))
    gapThen (exactly "\x7d")
    return (name, members)
  return ⟨kind, name, members, span⟩

/-- A whole document: blocks, with gaps around them, up to the end of the text. -/
def outline : Parser (List Block) :=
  symbol .schema do
    let blocks ← gapThen (many (first (BlockKind.all.map block)))
    gapThen (symbol .endOfInput atEnd)
    return blocks

end SchemaMigration.Grammar
