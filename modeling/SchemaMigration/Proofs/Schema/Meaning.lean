import SchemaMigration.Proofs.Fallible
import SchemaMigration.Proofs.Schema.Grammar.Inversion
import SchemaMigration.Schema.Reading

/-! # What an outline comes to

When a text becomes a document, its outline was read, and every block of it has come to a
declaration. A block of settings keeps its settings; a block that describes data is made of the parts
that its members add, by the kind of the block.
-/

namespace SchemaMigration

open Grammar (Block Member AttributeText Cursor)
open SchemaMigration.Grammar.Parser (Reads)

/-! ## Attributes and members -/

theorem Attribute.ofText_eq_ok {mark : String} {written : AttributeText} {a : Attribute}
    (h : Attribute.ofText mark written = .ok a) : a.name = written.name ∧ a.span = written.span := by
  unfold Attribute.ofText at h
  split at h
  next =>
    cases h
    exact ⟨rfl, rfl⟩
  next raw hraw =>
    split at h
    next args hargs =>
      cases h
      exact ⟨rfl, rfl⟩
    next => cases h

section Members

variable {name : Ident} {type : FieldType} {written : List AttributeText} {span : Span} {p : Part}

theorem Part.ofMember?_field_eq_ok
    (h : Part.ofMember? (.field name type written span) = .ok (some p)) :
    ∃ attributes, Attribute.ofTexts written = .ok attributes ∧
      p = .field ⟨name, type, attributes, span⟩ := by
  obtain ⟨attributes, hattributes, hpart⟩ := bind_eq_ok_iff.mp h
  exact ⟨attributes, hattributes, Option.some.inj (pure_eq_ok_iff.mp hpart)⟩

theorem Part.ofMember?_value_eq_ok (h : Part.ofMember? (.value name written span) = .ok (some p)) :
    ∃ attributes, Attribute.ofTexts written = .ok attributes ∧
      p = .value ⟨name, attributes, span⟩ := by
  obtain ⟨attributes, hattributes, hpart⟩ := bind_eq_ok_iff.mp h
  exact ⟨attributes, hattributes, Option.some.inj (pure_eq_ok_iff.mp hpart)⟩

theorem Part.ofMember?_attribute_eq_ok {w : AttributeText}
    (h : Part.ofMember? (.attribute w) = .ok (some p)) :
    ∃ a, Attribute.ofText "@@" w = .ok a ∧ p = .attribute a := by
  obtain ⟨a, ha, hpart⟩ := bind_eq_ok_iff.mp h
  exact ⟨a, ha, Option.some.inj (pure_eq_ok_iff.mp hpart)⟩

theorem Part.field?_eq_some_iff {f : Field} : p.field? = some f ↔ p = .field f := by
  cases p <;> simp [field?]

theorem Part.value?_eq_some_iff {v : EnumValue} : p.value? = some v ↔ p = .value v := by
  cases p <;> simp [value?]

theorem Part.attribute?_eq_some_iff {a : Attribute} : p.attribute? = some a ↔ p = .attribute a := by
  cases p <;> simp [attribute?]

end Members

/-! ## Declarations -/

/-- A declaration that describes data, made of parts. -/
def Declaration.ofParts (kind : BlockKind) (name : Ident) (parts : List Part) (span : Span) :
    Declaration :=
  let fields := parts.filterMap Part.field?
  let attributes := parts.filterMap Part.attribute?
  match kind with
  | .enum => .enum ⟨name, parts.filterMap Part.value?, attributes, span⟩
  | .type => .composite ⟨name, fields, span⟩
  | .view => .view ⟨name, fields, attributes, span⟩
  | _ => .model ⟨name, fields, attributes, span⟩

/-- What a block comes to: settings, or the parts that its members add. -/
inductive Declaration.ComesFrom (b : Block) : Declaration → Prop
  | datasource {settings : List (String × SettingValue)} (hkind : b.kind = .datasource)
      (h : SettingsBlock.settingsAfter b.name.name [] b.members = .ok settings) :
      ComesFrom b (.datasource ⟨b.name, settings, b.span⟩)
  | generator {settings : List (String × SettingValue)} (hkind : b.kind = .generator)
      (h : SettingsBlock.settingsAfter b.name.name [] b.members = .ok settings) :
      ComesFrom b (.generator ⟨b.name, settings, b.span⟩)
  | data {given : List (Option Part)} (hkind : b.kind ≠ .datasource ∧ b.kind ≠ .generator)
      (h : b.members.mapM Part.ofMember? = .ok given) :
      ComesFrom b (.ofParts b.kind b.name (given.filterMap id) b.span)

theorem Declaration.ofBlock_eq_ok_iff {b : Block} {x : Declaration} :
    Declaration.ofBlock b = .ok x ↔ Declaration.ComesFrom b x := by
  obtain ⟨kind, name, members, span⟩ := b
  constructor
  · intro h
    cases kind with
    | datasource =>
        obtain ⟨s, hs, hx⟩ := bind_eq_ok_iff.mp h
        obtain ⟨settings, hsettings, hs⟩ := bind_eq_ok_iff.mp hs
        cases pure_eq_ok_iff.mp hx
        cases pure_eq_ok_iff.mp hs
        exact .datasource rfl hsettings
    | generator =>
        obtain ⟨s, hs, hx⟩ := bind_eq_ok_iff.mp h
        obtain ⟨settings, hsettings, hs⟩ := bind_eq_ok_iff.mp hs
        cases pure_eq_ok_iff.mp hx
        cases pure_eq_ok_iff.mp hs
        exact .generator rfl hsettings
    | _ =>
        obtain ⟨given, hgiven, hx⟩ := bind_eq_ok_iff.mp h
        cases pure_eq_ok_iff.mp hx
        exact .data (by simp) hgiven
  · intro h
    cases h with
    | datasource hkind h =>
        cases hkind
        simp only [ofBlock, SettingsBlock.ofBlock, h]
        rfl
    | generator hkind h =>
        cases hkind
        simp only [ofBlock, SettingsBlock.ofBlock, h]
        rfl
    | data hkind h =>
        cases kind with
        | datasource => exact absurd rfl hkind.1
        | generator => exact absurd rfl hkind.2
        | _ =>
            dsimp only at h
            simp only [ofBlock, h]
            rfl

/-! ## Documents -/

theorem Document.ofText_eq_ok {text : String} {d : Document} (h : Document.ofText text = .ok d) :
    ∃ blocks c, Grammar.outline.Reads (.start text.toList) blocks c ∧
      blocks.mapM Declaration.ofBlock = .ok d.declarations := by
  have hchars : Document.ofChars text.toList = .ok d := by
    unfold Document.ofText at h
    split at h
    next document hdocument =>
      cases h
      exact hdocument
    next => cases h
  unfold Document.ofChars at hchars
  split at hchars
  next blocks c trail houtline =>
    obtain ⟨declarations, hdeclarations, hd⟩ := bind_eq_ok_iff.mp hchars
    cases pure_eq_ok_iff.mp hd
    exact ⟨blocks, c, ⟨{}, trail, houtline⟩, hdeclarations⟩
  next => cases hchars

/-- A text whose outline comes to declarations is a document. -/
theorem Document.ofText_of_outline {text : String} {blocks : List Block} {c : Cursor}
    {trail : Grammar.Trail} {declarations : List Declaration}
    (houtline : Grammar.outline (.start text.toList) {} = (some (blocks, c), trail))
    (hdeclarations : blocks.mapM Declaration.ofBlock = .ok declarations) :
    Document.ofText text = .ok ⟨declarations⟩ := by
  have hchars : Document.ofChars text.toList = .ok ⟨declarations⟩ := by
    rw [Document.ofChars, houtline]
    simp only [Document.ofOutline, hdeclarations]
    rfl
  unfold Document.ofText
  rw [hchars]

end SchemaMigration
