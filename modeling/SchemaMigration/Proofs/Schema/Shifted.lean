import SchemaMigration.Proofs.Schema.Grammar.Extension.Block
import SchemaMigration.Proofs.Schema.Meaning

/-! # Shifted documents

The parts of a document with all their ranges moved on by some bytes. What an outline comes to moves
with it: what the parts mean does not depend on where they stand.
-/

namespace SchemaMigration

open Grammar (AttributeText Member Block)

/-! ## Parts of a document -/

def Attribute.shift (k : Nat) (a : Attribute) : Attribute :=
  ⟨a.name.shift k, a.args, a.span.shift k⟩

def Field.shift (k : Nat) (f : Field) : Field :=
  ⟨f.name.shift k, f.type, f.attributes.map (Attribute.shift k), f.span.shift k⟩

def EnumValue.shift (k : Nat) (v : EnumValue) : EnumValue :=
  ⟨v.name.shift k, v.attributes.map (Attribute.shift k), v.span.shift k⟩

def SettingsBlock.shift (k : Nat) (b : SettingsBlock) : SettingsBlock :=
  ⟨b.name.shift k, b.properties, b.span.shift k⟩

def Model.shift (k : Nat) (m : Model) : Model :=
  ⟨m.name.shift k, m.fields.map (Field.shift k), m.attributes.map (Attribute.shift k),
    m.span.shift k⟩

def EnumType.shift (k : Nat) (e : EnumType) : EnumType :=
  ⟨e.name.shift k, e.values.map (EnumValue.shift k), e.attributes.map (Attribute.shift k),
    e.span.shift k⟩

def CompositeType.shift (k : Nat) (t : CompositeType) : CompositeType :=
  ⟨t.name.shift k, t.fields.map (Field.shift k), t.span.shift k⟩

def View.shift (k : Nat) (v : View) : View :=
  ⟨v.name.shift k, v.fields.map (Field.shift k), v.attributes.map (Attribute.shift k),
    v.span.shift k⟩

def Declaration.shift (k : Nat) : Declaration → Declaration
  | .datasource b => .datasource (b.shift k)
  | .generator b => .generator (b.shift k)
  | .model m => .model (m.shift k)
  | .enum e => .enum (e.shift k)
  | .composite t => .composite (t.shift k)
  | .view v => .view (v.shift k)

def Part.shift (k : Nat) : Part → Part
  | .field f => .field (f.shift k)
  | .value v => .value (v.shift k)
  | .attribute a => .attribute (a.shift k)

/-! ## Outlines that stay where they are -/

namespace Grammar

theorem AttributeText.shift_zero : AttributeText.shift 0 = id :=
  rfl

theorem Member.shift_zero : Member.shift 0 = id := by
  funext m
  cases m <;> simp [Member.shift, Ident.shift, Span.shift, AttributeText.shift_zero]

theorem Block.shift_zero : Block.shift 0 = id := by
  funext b
  simp [Block.shift, Ident.shift, Span.shift, Member.shift_zero]

end Grammar

/-! ## What a shifted outline comes to -/

section Shift

variable {k : Nat}

theorem Attribute.ofText_shift {mark : String} {written : AttributeText} {a : Attribute}
    (h : Attribute.ofText mark written = .ok a) :
    Attribute.ofText mark (written.shift k) = .ok (a.shift k) := by
  obtain ⟨name, arguments, span⟩ := written
  cases arguments with
  | none =>
      cases h
      rfl
  | some raw =>
      simp only [Attribute.ofText] at h
      split at h
      next args hargs =>
        cases h
        simp only [Attribute.ofText, AttributeText.shift, Ident.shift, hargs]
        rfl
      next => cases h

theorem Attribute.ofTexts_shift {written : List AttributeText} {attributes : List Attribute}
    (h : Attribute.ofTexts written = .ok attributes) :
    Attribute.ofTexts (written.map (AttributeText.shift k)) =
      .ok (attributes.map (Attribute.shift k)) :=
  mapM_map_eq_ok h fun _ _ => ofText_shift

theorem Part.ofMember?_shift {m : Member} {o : Option Part} (h : ofMember? m = .ok o) :
    ofMember? (m.shift k) = .ok (o.map (Part.shift k)) := by
  rcases m with ⟨key, setting, span⟩ | ⟨name, type, written, span⟩ | ⟨name, written, span⟩ | written
  · cases h
    rfl
  · obtain ⟨attributes, hattributes, hpart⟩ := bind_eq_ok_iff.mp h
    cases pure_eq_ok_iff.mp hpart
    simp only [Member.shift, ofMember?, Attribute.ofTexts_shift hattributes]
    rfl
  · obtain ⟨attributes, hattributes, hpart⟩ := bind_eq_ok_iff.mp h
    cases pure_eq_ok_iff.mp hpart
    simp only [Member.shift, ofMember?, Attribute.ofTexts_shift hattributes]
    rfl
  · obtain ⟨a, ha, hpart⟩ := bind_eq_ok_iff.mp h
    cases pure_eq_ok_iff.mp hpart
    simp only [Member.shift, ofMember?, Attribute.ofText_shift ha]
    rfl

theorem SettingsBlock.settingsAfter_shift {block : String} {members : List Member}
    {known settings : List (String × SettingValue)}
    (h : settingsAfter block known members = .ok settings) :
    settingsAfter block known (members.map (Member.shift k)) = .ok settings := by
  induction members generalizing known with
  | nil => exact h
  | cons m members ih =>
      cases m with
      | property key setting span =>
          simp only [settingsAfter] at h
          split at h
          next => cases h
          next hnew =>
            simp only [List.map_cons, Member.shift, settingsAfter, hnew]
            exact ih h
      | _ => exact ih h

theorem Declaration.ofParts_shift (kind : BlockKind) (name : Ident) (parts : List Part)
    (span : Span) :
    ofParts kind (name.shift k) (parts.map (Part.shift k)) (span.shift k) =
      (ofParts kind name parts span).shift k := by
  have hfields : (parts.map (Part.shift k)).filterMap Part.field? =
      (parts.filterMap Part.field?).map (Field.shift k) := by
    rw [List.filterMap_map, List.map_filterMap]
    exact congrArg (parts.filterMap ·) (funext fun p => by cases p <;> rfl)
  have hvalues : (parts.map (Part.shift k)).filterMap Part.value? =
      (parts.filterMap Part.value?).map (EnumValue.shift k) := by
    rw [List.filterMap_map, List.map_filterMap]
    exact congrArg (parts.filterMap ·) (funext fun p => by cases p <;> rfl)
  have hattributes : (parts.map (Part.shift k)).filterMap Part.attribute? =
      (parts.filterMap Part.attribute?).map (Attribute.shift k) := by
    rw [List.filterMap_map, List.map_filterMap]
    exact congrArg (parts.filterMap ·) (funext fun p => by cases p <;> rfl)
  cases kind <;> simp only [ofParts, hfields, hvalues, hattributes] <;> rfl

/-- A block that is moved comes to the same declaration, moved as well. -/
theorem Declaration.ofBlock_shift {b : Block} {x : Declaration} (h : ofBlock b = .ok x) :
    ofBlock (b.shift k) = .ok (x.shift k) := by
  rw [ofBlock_eq_ok_iff] at h ⊢
  cases h with
  | datasource hkind h => exact .datasource hkind (SettingsBlock.settingsAfter_shift h)
  | generator hkind h => exact .generator hkind (SettingsBlock.settingsAfter_shift h)
  | @data given hkind h =>
      have hgiven : (b.members.map (Member.shift k)).mapM Part.ofMember? =
          .ok (given.map (Option.map (Part.shift k))) :=
        mapM_map_eq_ok h fun _ _ => Part.ofMember?_shift
      have hparts : (given.map (Option.map (Part.shift k))).filterMap id =
          (given.filterMap id).map (Part.shift k) := by
        rw [List.filterMap_map, List.map_filterMap]
        rfl
      rw [← ofParts_shift, ← hparts]
      exact .data (b := b.shift k) hkind hgiven

end Shift

end SchemaMigration
