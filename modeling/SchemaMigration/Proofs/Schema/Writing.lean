import SchemaMigration.Proofs.Schema.ArgumentText.Balance
import SchemaMigration.Schema.ArgumentText.Labelled
import SchemaMigration.Schema.Reading

/-! # Writing documents

The canonical text of a document has one item to a line: the braces of a block, its settings, fields
and values, and then its own attributes. Strings stand in double quotes, with a backslash before
what must be escaped. Parts of a list or of the arguments of an attribute are separated by commas.

Not every document can be written. Names must be identifiers, numbers must be numerals, and the
arguments of an attribute must be of the kind that its name takes.
-/

namespace SchemaMigration

open Text (isWord isBlank strip stripBy)

/-! ## Texts of parts -/

namespace Grammar

/-- A character between double quotes: quotes, backslashes and line ends are escaped. -/
def escapeChar (c : Char) : List Char :=
  if c = '"' ∨ c = '\\' then ['\\', c]
  else if c = '\n' then ['\\', 'n']
  else if c = '\r' then ['\\', 'r']
  else [c]

def escape (cs : List Char) : List Char :=
  cs.flatMap escapeChar

/-- A string in double quotes. -/
def quoted (s : String) : List Char :=
  '"' :: (escape s.toList ++ ['"'])

/-- Texts in a row, a comma and a blank between them. -/
def row : List (List Char) → List Char
  | [] => []
  | text :: texts => text ++ texts.flatMap fun t => ',' :: ' ' :: t

end Grammar

open Grammar (quoted row)

mutual

/-- A value as it is written in a setting. -/
def SettingValue.chars : SettingValue → List Char
  | .string value => quoted value
  | .number text => text.toList
  | .boolean value => (toString value).toList
  | .ident name => name.toList
  | .array values => '[' :: (SettingValue.rowChars values ++ [']'])
  | .call function arguments =>
    function.toList ++ '(' :: (SettingValue.rowChars arguments ++ [')'])

/-- Values in a row. -/
def SettingValue.rowChars : List SettingValue → List Char
  | [] => []
  | value :: values => value.chars ++ SettingValue.furtherChars values

def SettingValue.furtherChars : List SettingValue → List Char
  | [] => []
  | value :: values => ',' :: ' ' :: (value.chars ++ SettingValue.furtherChars values)

end

def Literal.chars : Literal → List Char
  | .string value => quoted value
  | .int value => (Number.int64Text value).toList
  | .float value => value.text.toList
  | .boolean value => (toString value).toList
  | .ident name => name.toList

def FunctionCall.chars (c : FunctionCall) : List Char :=
  c.function.name.toList ++ '(' :: (row (c.arguments.map String.toList) ++ [')'])

namespace ArgumentText

/-- Names in brackets. -/
def namesChars (names : List String) : List Char :=
  '[' :: (row (names.map String.toList) ++ [']'])

/-- A list of names, when it is not empty. -/
def listed? (names : List String) : Option (List String) :=
  if names = [] then none else some names

/-- A value after its label. -/
def labelledChars (label : String) (value : List Char) : List Char :=
  label.toList ++ ':' :: ' ' :: value

/-- An argument with a label, when it is given. -/
def part (label : String) (value : Option (List Char)) : List (List Char) :=
  (value.map (labelledChars label)).toList

end ArgumentText

open ArgumentText (listed? namesChars part)

/-- The arguments of a relation, each with its label. -/
def RelationArgs.parts (r : RelationArgs) : List (List Char) :=
  part "fields" ((listed? r.fields).map namesChars) ++
    (part "references" ((listed? r.references).map namesChars) ++
      (part "name" (r.name.map quoted) ++
        (part "onDelete" (r.onDelete.map String.toList) ++
          part "onUpdate" (r.onUpdate.map String.toList))))

/-- The fields, and behind them the name. -/
def FieldListArgs.parts (l : FieldListArgs) : List (List Char) :=
  namesChars l.fields :: part "name" (l.name.map quoted)

/-- The expression, and behind it the name. -/
def CheckArgs.parts (c : CheckArgs) : List (List Char) :=
  c.expression.toList :: part "name" (c.name.map quoted)

/-- The text between the parentheses of an attribute, unless it has no arguments. -/
def Arguments.chars? : Arguments → Option (List Char)
  | .none => Option.none
  | .call c => some c.chars
  | .literal v => some v.chars
  | .relation r => some (row r.parts)
  | .fieldList l => some (row l.parts)
  | .check c => some (row c.parts)
  | .raw text => some text.toList

/-- Arguments in parentheses, or nothing. -/
def Arguments.parenthesized (args : Arguments) : List Char :=
  match args.chars? with
  | some text => '(' :: (text ++ [')'])
  | .none => []

/-- An attribute, with the mark that stands before its name. -/
def Attribute.chars (mark : String) (a : Attribute) : List Char :=
  mark.toList ++ (a.name.name.toList ++ a.args.parenthesized)

/-- The attributes behind a field or an enum value. -/
def Attribute.trailing (attributes : List Attribute) : List Char :=
  attributes.flatMap fun a => [' '] ++ a.chars "@"

def Field.chars (f : Field) : List Char :=
  f.name.name.toList ++ ' ' :: (f.type.text.toList ++ Attribute.trailing f.attributes)

def EnumValue.chars (v : EnumValue) : List Char :=
  v.name.name.toList ++ Attribute.trailing v.attributes

def Part.chars : Part → List Char
  | .field f => f.chars
  | .value v => v.chars
  | .attribute a => a.chars "@@"

/-! ## Texts of declarations -/

/-- A block: its keyword, its name, and in braces its members, one to a line. -/
def BlockKind.chars (kind : BlockKind) (name : String) (members : List (List Char)) : List Char :=
  kind.keyword.toList ++ ' ' :: (name.toList ++ " \x7b".toList ++
    members.flatMap (fun m => "\n  ".toList ++ m) ++ "\n\x7d".toList)

def SettingsBlock.chars (kind : BlockKind) (b : SettingsBlock) : List Char :=
  kind.chars b.name.name (b.properties.map fun setting =>
    setting.1.toList ++ " = ".toList ++ setting.2.chars)

/-- The parts of a declaration that describes data: fields or values, then attributes. -/
def Declaration.parts : Declaration → List Part
  | .datasource _ | .generator _ => []
  | .model m => m.fields.map Part.field ++ m.attributes.map Part.attribute
  | .enum e => e.values.map Part.value ++ e.attributes.map Part.attribute
  | .composite t => t.fields.map Part.field
  | .view v => v.fields.map Part.field ++ v.attributes.map Part.attribute

def Declaration.chars (x : Declaration) : List Char :=
  match x with
  | .datasource b => b.chars .datasource
  | .generator b => b.chars .generator
  | .model m => BlockKind.chars .model m.name.name (x.parts.map Part.chars)
  | .enum e => BlockKind.chars .enum e.name.name (x.parts.map Part.chars)
  | .composite t => BlockKind.chars .type t.name.name (x.parts.map Part.chars)
  | .view v => BlockKind.chars .view v.name.name (x.parts.map Part.chars)

def Document.chars (d : Document) : List Char :=
  d.declarations.flatMap fun x => x.chars ++ ['\n']

/-- The canonical text of a document. -/
def Document.text (d : Document) : String :=
  String.ofList d.chars

/-! ## Documents that can be written -/

/-- A letter or underscore, and then letters, digits and underscores. -/
def IsIdentifier (s : String) : Prop :=
  isWord s.toList = true

instance (s : String) : Decidable (IsIdentifier s) :=
  inferInstanceAs (Decidable (_ = _))

/-- Identifiers with points between them. -/
def IsDottedName (s : String) : Prop :=
  ∃ (first : String) (further : List String), IsIdentifier first ∧
    (∀ w ∈ further, IsIdentifier w) ∧
    s.toList = first.toList ++ further.flatMap fun w => '.' :: w.toList

/-- Nothing, or a decimal point before digits. -/
def IsFraction (cs : List Char) : Prop :=
  cs = [] ∨ ∃ digits, ArgumentText.isDigits digits = true ∧ cs = '.' :: digits

/-- An integer or a decimal, with or without a minus sign. -/
def IsNumeral (s : String) : Prop :=
  ∃ sign whole fraction, (sign = [] ∨ sign = ['-']) ∧ ArgumentText.isDigits whole = true ∧
    IsFraction fraction ∧ s.toList = sign ++ whole ++ fraction

/-- An identifier that is no truth value. -/
def IsPlainName (s : String) : Prop :=
  IsIdentifier s ∧ s ≠ "true" ∧ s ≠ "false"

inductive SettingValue.IsWritable : SettingValue → Prop
  | string (value : String) : IsWritable (.string value)
  | number {text : String} (h : IsNumeral text) : IsWritable (.number text)
  | boolean (value : Bool) : IsWritable (.boolean value)
  | ident {name : String} (h : IsPlainName name) : IsWritable (.ident name)
  | array {values : List SettingValue} (h : ∀ v ∈ values, IsWritable v) :
      IsWritable (.array values)
  | call {function : String} {arguments : List SettingValue} (hfunction : IsIdentifier function)
      (h : ∀ v ∈ arguments, IsWritable v) : IsWritable (.call function arguments)

/-- A block of settings with identifiers for its name and its keys, which are distinct. -/
structure SettingsBlock.IsWritable (b : SettingsBlock) : Prop where
  name : IsIdentifier b.name.name
  keys : ∀ setting ∈ b.properties, IsIdentifier setting.1
  distinct : (b.properties.map Prod.fst).Nodup
  values : ∀ setting ∈ b.properties, setting.2.IsWritable

def Literal.IsWritable : Literal → Prop
  | .string _ | .int _ | .boolean _ => True
  | .float _ => False
  | .ident name => IsPlainName name

/-- The arguments of a call are balanced texts without a comma that would separate them. -/
def FunctionCall.IsWritable (c : FunctionCall) : Prop :=
  ∀ a ∈ c.arguments, a ≠ "" ∧ ArgumentText.Balanced false a.toList

structure RelationArgs.IsWritable (r : RelationArgs) : Prop where
  given : r ≠ {}
  fields : ∀ f ∈ r.fields, IsIdentifier f
  references : ∀ f ∈ r.references, IsIdentifier f
  onDelete : ∀ action ∈ r.onDelete, IsIdentifier action
  onUpdate : ∀ action ∈ r.onUpdate, IsIdentifier action

def FieldListArgs.IsWritable (l : FieldListArgs) : Prop :=
  ∀ f ∈ l.fields, IsIdentifier f

/-- The expression is balanced, has no blank or comma at either end, and names no constraint. -/
structure CheckArgs.IsWritable (c : CheckArgs) : Prop where
  balanced : ArgumentText.Balanced true c.expression.toList
  trimmed : stripBy (fun ch => isBlank ch || ch == ',') c.expression.toList = c.expression.toList
  unnamed : ArgumentText.extract ArgumentText.nameForm c.expression.toList = none

/-- The arguments are of the kind that the name of their attribute takes. -/
def Arguments.IsWritable (name : String) : Arguments → Prop
  | .none => True
  | .call c => name = "default" ∧ c.IsWritable
  | .literal v => name ∉ ["relation", "index", "unique", "id", "check"] ∧ v.IsWritable
  | .relation r => name = "relation" ∧ r.IsWritable
  | .fieldList l => name ∈ ["index", "unique", "id"] ∧ l.IsWritable
  | .check c => name = "check" ∧ c.IsWritable
  | .raw _ => False

structure Attribute.IsWritable (a : Attribute) : Prop where
  name : IsDottedName a.name.name
  args : a.args.IsWritable a.name.name

structure Field.IsWritable (f : Field) : Prop where
  name : IsIdentifier f.name.name
  type : IsIdentifier f.type.base
  attributes : ∀ a ∈ f.attributes, a.IsWritable

structure EnumValue.IsWritable (v : EnumValue) : Prop where
  name : IsIdentifier v.name.name
  attributes : ∀ a ∈ v.attributes, a.IsWritable

def Part.IsWritable : Part → Prop
  | .field f => f.IsWritable
  | .value v => v.IsWritable
  | .attribute a => a.IsWritable

def Declaration.IsWritable (x : Declaration) : Prop :=
  match x with
  | .datasource b | .generator b => b.IsWritable
  | .model _ | .enum _ | .composite _ | .view _ =>
    IsIdentifier x.name ∧ ∀ p ∈ x.parts, p.IsWritable

def Document.IsWritable (d : Document) : Prop :=
  ∀ x ∈ d.declarations, x.IsWritable

/-! ## Arguments without a loose end -/

/-- A label `name` with a colon and the quote that opens a string. -/
def ArgumentText.nameOpening : ArgumentText.Form :=
  ArgumentText.labelled "name" fun cs => if cs.head? = some '"' then some ([], cs) else none

/-- The arguments of a call have no blanks at their ends. -/
def FunctionCall.IsTidy (c : FunctionCall) : Prop :=
  ∀ a ∈ c.arguments, strip a.toList = a.toList

/-- There is an expression, and it does not begin to give a name when a name is given behind it. -/
structure CheckArgs.IsTidy (c : CheckArgs) : Prop where
  given : c.expression ≠ ""
  closed : c.name ≠ none → ArgumentText.extract ArgumentText.nameOpening c.expression.toList = none

def Arguments.IsTidy : Arguments → Prop
  | .call c => c.IsTidy
  | .check c => c.IsTidy
  | _ => True

def Part.attributes : Part → List Attribute
  | .field f => f.attributes
  | .value v => v.attributes
  | .attribute a => [a]

def Document.IsTidy (d : Document) : Prop :=
  ∀ x ∈ d.declarations, ∀ p ∈ x.parts, ∀ a ∈ p.attributes, a.args.IsTidy

end SchemaMigration
