import SchemaMigration.Files.Tree
import SchemaMigration.Schema.ArgumentText.Interpretation
import SchemaMigration.Schema.Grammar.Outline

/-! # Reading documents

A text becomes a document in two steps: the grammar gives its outline, and then the arguments of the
attributes are interpreted and the settings checked for repeated keys, in the order of the text. A
text that the grammar refuses gives an error at the furthest place that was reached; a fault found
in the second step gives an error at the attribute or the setting it concerns.
-/

namespace SchemaMigration

open Grammar (AttributeText Member Block)
open Text (Position)

/-- A fault and the range of bytes it concerns. -/
abbrev LocatedFault := Span × SyntaxFault

def SyntaxError.ofFault (text : List Char) (fault : LocatedFault) : SyntaxError :=
  ⟨fault.1, Position.atOffset text fault.1.start, fault.2⟩

/-- An attribute with its arguments interpreted. The mark is the sign that stands before its
name. -/
def Attribute.ofText (mark : String) (written : AttributeText) : Except LocatedFault Attribute :=
  match written.arguments with
  | none => .ok ⟨written.name, .none, written.span⟩
  | some raw =>
    match ArgumentText.interpret written.name.name raw with
    | .ok args => .ok ⟨written.name, args, written.span⟩
    | .error fault => .error (written.span, .badArguments (mark ++ written.name.name) fault)

/-- The attributes of a field or an enum value. -/
def Attribute.ofTexts (written : List AttributeText) : Except LocatedFault (List Attribute) :=
  written.mapM (Attribute.ofText "@")

/-- What a member adds to a block of data. -/
inductive Part
  | field (field : Field)
  | value (value : EnumValue)
  | attribute (written : Attribute)

namespace Part

/-- What a member adds to a block of data. A setting adds nothing. -/
def ofMember? : Member → Except LocatedFault (Option Part)
  | .property .. => .ok none
  | .field name type attributes span => do
    return some (.field ⟨name, type, ← Attribute.ofTexts attributes, span⟩)
  | .value name attributes span => do
    return some (.value ⟨name, ← Attribute.ofTexts attributes, span⟩)
  | .attribute written => do
    return some (.attribute (← Attribute.ofText "@@" written))

def field? : Part → Option Field
  | .field f => some f
  | _ => none

def value? : Part → Option EnumValue
  | .value v => some v
  | _ => none

def attribute? : Part → Option Attribute
  | .attribute a => some a
  | _ => none

end Part

/-- The settings of a block after those already read. A key must not occur twice. -/
def SettingsBlock.settingsAfter (block : String) :
    List (String × SettingValue) → List Member → Except LocatedFault (List (String × SettingValue))
  | known, .property key value span :: members =>
    if known.any fun setting => setting.1 == key then
      .error (span, .duplicateProperty key block)
    else settingsAfter block (known ++ [(key, value)]) members
  | known, _ :: members => settingsAfter block known members
  | known, [] => .ok known

def SettingsBlock.ofBlock (block : Block) : Except LocatedFault SettingsBlock := do
  let settings ← settingsAfter block.name.name [] block.members
  return ⟨block.name, settings, block.span⟩

def Declaration.ofBlock (block : Block) : Except LocatedFault Declaration := do
  match block.kind with
  | .datasource => return .datasource (← SettingsBlock.ofBlock block)
  | .generator => return .generator (← SettingsBlock.ofBlock block)
  | kind =>
    let parts := (← block.members.mapM Part.ofMember?).filterMap id
    let fields := parts.filterMap Part.field?
    let attributes := parts.filterMap Part.attribute?
    match kind with
    | .enum => return .enum ⟨block.name, parts.filterMap Part.value?, attributes, block.span⟩
    | .type => return .composite ⟨block.name, fields, block.span⟩
    | .view => return .view ⟨block.name, fields, attributes, block.span⟩
    | _ => return .model ⟨block.name, fields, attributes, block.span⟩

def Document.ofOutline (blocks : List Block) : Except LocatedFault Document := do
  return ⟨← blocks.mapM Declaration.ofBlock⟩

def Document.ofChars (cs : List Char) : Except LocatedFault Document :=
  match Grammar.outline (.start cs) {} with
  | (some (blocks, _), _) => Document.ofOutline blocks
  | (none, trail) => .error (⟨trail.furthest, trail.furthest⟩, .expected trail.expected)

/-- The document that a text denotes, or the error at the first place that is wrong. -/
def Document.ofText (text : String) : Except SchemaError Document :=
  match Document.ofChars text.toList with
  | .ok document => .ok document
  | .error fault => .error (.syntactic (.ofFault text.toList fault))

def Document.ofFile (tree : Files.Tree) (path : Files.Path) : Except SchemaError Document :=
  match tree.readText path with
  | .ok text => ofText text
  | .error _ => .error (.unreadable path.text)

end SchemaMigration
