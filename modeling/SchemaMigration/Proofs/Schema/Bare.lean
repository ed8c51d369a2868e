import SchemaMigration.Layout.Table

/-! # Bare documents

What a document says, apart from where it stands in its text: the same document with all its ranges
of bytes made empty. Names in the database, relations and columns do not depend on the ranges.
-/

namespace SchemaMigration

def Span.empty : Span :=
  ⟨0, 0⟩

def Ident.bare (i : Ident) : Ident :=
  ⟨i.name, .empty⟩

def Attribute.bare (a : Attribute) : Attribute :=
  ⟨a.name.bare, a.args, .empty⟩

def Field.bare (f : Field) : Field :=
  ⟨f.name.bare, f.type, f.attributes.map Attribute.bare, .empty⟩

def Model.bare (m : Model) : Model :=
  ⟨m.name.bare, m.fields.map Field.bare, m.attributes.map Attribute.bare, .empty⟩

def EnumValue.bare (v : EnumValue) : EnumValue :=
  ⟨v.name.bare, v.attributes.map Attribute.bare, .empty⟩

def EnumType.bare (e : EnumType) : EnumType :=
  ⟨e.name.bare, e.values.map EnumValue.bare, e.attributes.map Attribute.bare, .empty⟩

def CompositeType.bare (t : CompositeType) : CompositeType :=
  ⟨t.name.bare, t.fields.map Field.bare, .empty⟩

def View.bare (v : View) : View :=
  ⟨v.name.bare, v.fields.map Field.bare, v.attributes.map Attribute.bare, .empty⟩

def SettingsBlock.bare (b : SettingsBlock) : SettingsBlock :=
  ⟨b.name.bare, b.properties, .empty⟩

def Declaration.bare : Declaration → Declaration
  | .datasource b => .datasource b.bare
  | .generator b => .generator b.bare
  | .model m => .model m.bare
  | .enum e => .enum e.bare
  | .composite t => .composite t.bare
  | .view v => .view v.bare

def Document.bare (d : Document) : Document :=
  ⟨d.declarations.map Declaration.bare⟩

@[simp] theorem Ident.bare_name (i : Ident) : i.bare.name = i.name :=
  rfl

namespace Attribute

variable {a b : Attribute}

@[simp] theorem bare_name (a : Attribute) : a.bare.name.name = a.name.name :=
  rfl

@[simp] theorem bare_args (a : Attribute) : a.bare.args = a.args :=
  rfl

theorem bare_eq_iff : a.bare = b.bare ↔ a.name.name = b.name.name ∧ a.args = b.args := by
  simp [bare, Ident.bare]

theorem find?_bare (attributes : List Attribute) (label : String) :
    find? (attributes.map bare) label = (find? attributes label).map bare := by
  simp only [find?, List.find?_map]
  rfl

theorem has_bare (attributes : List Attribute) (label : String) :
    has (attributes.map bare) label = has attributes label := by
  simp [has, Function.comp_def]

theorem named_bare (attributes : List Attribute) (label : String) :
    named (attributes.map bare) label = (named attributes label).map bare := by
  simp only [named, List.filter_map]
  rfl

theorem mapped?_bare (attributes : List Attribute) :
    mapped? (attributes.map bare) = mapped? attributes := by
  rw [mapped?, find?_bare, mapped?, Option.bind_map]
  rfl

end Attribute

namespace Field

@[simp] theorem bare_name (f : Field) : f.bare.name.name = f.name.name :=
  rfl

@[simp] theorem bare_type (f : Field) : f.bare.type = f.type :=
  rfl

@[simp] theorem bare_has (f : Field) (label : String) : f.bare.has label = f.has label :=
  Attribute.has_bare _ _

theorem bare_attribute? (f : Field) (label : String) :
    f.bare.attribute? label = (f.attribute? label).map Attribute.bare :=
  Attribute.find?_bare _ _

@[simp] theorem bare_relation? (f : Field) : f.bare.relation? = f.relation? := by
  rw [relation?, bare_attribute?, relation?, Option.bind_map]
  rfl

@[simp] theorem bare_mapped? (f : Field) : f.bare.mapped? = f.mapped? :=
  Attribute.mapped?_bare _

@[simp] theorem bare_columnName (f : Field) : f.bare.columnName = f.columnName := by
  rw [columnName, bare_mapped?, bare_name, columnName]

@[simp] theorem bare_attributeName? (f : Field) (label : String) :
    f.bare.attributeName? label = f.attributeName? label := by
  rw [attributeName?, bare_attribute?, attributeName?, Option.bind_map]
  rfl

end Field

@[simp] theorem Document.isColumn_bare (d : Document) (f : Field) :
    d.isColumn f.bare = d.isColumn f := by
  simp [isColumn]

/-! ## Declarations without places -/

namespace Document

/-- An attribute without a place. -/
def bareAttribute (name : String) (args : Arguments) : Attribute :=
  ⟨⟨name, ⟨0, 0⟩⟩, args, ⟨0, 0⟩⟩

/-- A required field that has the name of its column. -/
def bareField (name base : String) (attributes : List Attribute) : Field :=
  ⟨⟨name, ⟨0, 0⟩⟩, ⟨base, false, false⟩,
    bareAttribute "map" (.literal (.string name)) :: attributes, ⟨0, 0⟩⟩

/-- A model with a key and further fields. -/
def bareModel (name table : String) (fields : List Field) : Declaration :=
  .model ⟨⟨name, ⟨0, 0⟩⟩, bareField "id" "Int" [bareAttribute "id" .none] :: fields,
    [bareAttribute "map" (.literal (.string table))], ⟨0, 0⟩⟩

end Document

end SchemaMigration
