import SchemaMigration.Plan.Change
import SchemaMigration.Proofs.Layout.Table
import SchemaMigration.Proofs.Schema.Quotation
import SchemaMigration.Proofs.Schema.Validity
import SchemaMigration.Proofs.Sql.Naming

/-! # Strings from a schema to its statements

A string in quotes in the text of a schema becomes the literal of a default value or a name in the
database. The layout of the schema keeps it, and in the statement of a change it stands in quotes of
SQL, from which it is read back.
-/

namespace SchemaMigration

open Sql (Column Denotes QuotesNames Segment Spaced denotes_quoteText readToken render)

/-! ## Statements of changes -/

namespace Change

/-- The names that a change mentions, in the order of its statement. -/
def names : Change → List String
  | .createTable _ table => table.names
  | .dropTable _ table => [table]
  | .addColumn table column => table :: column.names
  | .createIndex index => index.name :: index.table :: index.columns
  | .dropIndex index => [index.name]

/-- The change with other names. -/
def rename (φ : String → String) : Change → Change
  | .createTable model table => .createTable model (table.rename φ)
  | .dropTable model table => .dropTable model (φ table)
  | .addColumn table column => .addColumn (φ table) (column.rename φ)
  | .createIndex index => .createIndex (index.rename φ)
  | .dropIndex index => .dropIndex (index.rename φ)

@[simp] theorem rename_id (c : Change) : c.rename id = c := by
  cases c <;> simp [rename]

theorem quotesNames (c : Change) : QuotesNames (fun φ => (c.rename φ).sql) c.names := by
  cases c with
  | createTable model table => exact table.quotesNames_createSql
  | dropTable model table => exact Sql.quotesNames_dropTableSql table
  | addColumn table column => exact Sql.quotesNames_addColumnSql table column
  | createIndex index => exact index.quotesNames_createSql
  | dropIndex index => exact index.quotesNames_dropSql

/-- Segments make up the statement of a change. Its names are the names among them, with other names
nothing but these segments changes, and where a name stands it is read back, up to what follows. -/
structure IsMadeOf (c : Change) (segments : List Segment) : Prop where
  sql : c.sql.toList = render segments
  names : segments.filterMap Segment.name? = c.names
  renamed : ∀ φ, (c.rename φ).sql.toList = render (segments.map (Segment.rename φ))
  read : ∀ before n after, segments = before ++ .name n :: after →
    readToken '"' (render (.name n :: after)) = some (n.toList, render after)

theorem exists_isMadeOf (c : Change) : ∃ segments, c.IsMadeOf segments := by
  obtain ⟨segments, hspaced, hnames, hsql⟩ := c.quotesNames
  have hsame : c.sql.toList = render segments := by
    simpa using hsql id
  exact ⟨segments, hsame, hnames, hsql, fun _ _ _ hsplit => hspaced.readToken_name hsplit⟩

end Change

/-! ## Layouts -/

/-- Behind everything else, the definition of a column has a default value that is a string. -/
def Sql.Column.HasDefaultText (c : Column) (v : String) : Prop :=
  ∃ token, c.sql = { c with default := none }.sql ++ " DEFAULT " ++ token ∧ Denotes '\'' token v

theorem Sql.Column.hasDefaultText {c : Column} {v : String} (h : c.default = some (.text v)) :
    c.HasDefaultText v := by
  refine ⟨quoteText v, ?_, denotes_quoteText v⟩
  simp [Column.sql, h, DefaultValue.sql, String.append_assoc]

/-- The layout of a document keeps a string: as a default value it ends the definition of its column,
and as a mapped name it is the name of its column or its table. -/
structure Document.KeepsString (d : Document) (v : String) : Prop where
  default : ∀ m f, f.defaultLiteral? = some (.string v) →
    (∀ key, ∃ column, d.column f key = .ok column ∧ column.HasDefaultText v) ∧
      ∃ column, d.addedColumn m f = .ok column ∧ column.HasDefaultText v
  column : ∀ m f, f.mapped? = some v →
    (∀ key column, d.column f key = .ok column → column.name = v) ∧
      (∀ column, d.addedColumn m f = .ok column → column.name = v) ∧
      (m.field? f.name.name = some f → m.columnNameOf f.name.name = v)
  table : ∀ m, m.mapped? = some v →
    m.tableName = v ∧ (∀ table, d.table m = .ok table → table.name = v) ∧
      ∀ index ∈ d.indexes m, index.table = v

section Layout

variable {d : Document} {m : Model} {f : Field} {v : String}

theorem Document.plainColumn_of_string (h : f.defaultLiteral? = some (.string v)) :
    ∃ column, d.plainColumn f = .ok column ∧ column.default = some (.text v) := by
  obtain ⟨a, ha, hliteral⟩ := Option.bind_eq_some_iff.mp h
  have hargs := Attribute.literal?_eq_some_iff.mp hliteral
  have hidentity : f.checkIdentity = .ok () := by
    simp [Field.checkIdentity, Field.isIdentity, Field.defaultCall?, ha, Attribute.call?, hargs]
  have hdefault : d.defaultValue f = .ok (some (.text v)) := by
    simp only [defaultValue, ha, hargs]
    rfl
  exact ⟨_, plainColumn_eq_ok_iff.mpr ⟨hidentity, _, hdefault, rfl⟩, rfl⟩

theorem Document.keepsString (d : Document) (v : String) : d.KeepsString v where
  default := by
    intro m f h
    obtain ⟨column, hcolumn, hdefault⟩ := plainColumn_of_string (d := d) h
    refine ⟨fun key => ⟨_, column_eq_ok_iff.mpr ⟨column, hcolumn, rfl⟩, ?_⟩,
      column, addedColumn_eq_ok_iff.mpr hcolumn, Column.hasDefaultText hdefault⟩
    exact Column.hasDefaultText hdefault
  column := by
    intro m f h
    have hname : f.columnName = v := by rw [Field.columnName, h, Option.getD_some]
    refine ⟨fun key column hcolumn => (column_name hcolumn).trans hname,
      fun column hcolumn => (plainColumn_name (addedColumn_eq_ok_iff.mp hcolumn)).trans hname, ?_⟩
    intro hfield
    rw [Model.columnNameOf, hfield]
    exact hname
  table := by
    intro m h
    have hname : m.tableName = v := by rw [Model.tableName, h, Option.getD_some]
    exact ⟨hname, fun table htable => (table_name htable).trans hname,
      fun index hindex => (index_table hindex).trans hname⟩

end Layout

/-! ## Texts -/

/-- Where the text of a document has a string in quotes as the default value of a field or as the
mapped name of a field or a model, the document has the string. -/
structure Document.HasString (d : Document) (text v : String) : Prop where
  default : ∀ m ∈ d.models, ∀ f ∈ m.fields, ∀ a, f.attribute? "default" = some a →
    a.span.Holds text.toList (Attribute.quotedChars "@" "default" v) →
      f.defaultLiteral? = some (.string v)
  column : ∀ m ∈ d.models, ∀ f ∈ m.fields, ∀ a, f.attribute? "map" = some a →
    a.span.Holds text.toList (Attribute.quotedChars "@" "map" v) → f.mapped? = some v
  table : ∀ m ∈ d.models, ∀ a, m.attribute? "map" = some a →
    a.span.Holds text.toList (Attribute.quotedChars "@@" "map" v) → m.mapped? = some v

section Texts

variable {text : String} {d : Document} {v : String}

theorem Attribute.literal?_of_find? {attributes : List Attribute} {mark name : String} {a : Attribute}
    (hplaced : ∀ a ∈ attributes, a.IsPlaced text.toList mark) (hname : name ∉ interpretedNames)
    (ha : find? attributes name = some a)
    (hwritten : a.span.Holds text.toList (quotedChars mark name v)) :
    a.literal? = some (.string v) := by
  have hfound : a.name.name = name := by simpa using List.find?_some ha
  exact literal?_eq_some_iff.mpr
    ((hplaced a (List.mem_of_find?_eq_some ha)).args_eq hfound hname hwritten)

theorem Document.hasString (h : ofText text = .ok d) (v : String) : d.HasString text v where
  default := by
    intro m hm f hf a ha hwritten
    have hplaced := Declaration.isPlaced_of_mem h (mem_declarations_of_mem_models hm)
    have hliteral := Attribute.literal?_of_find? (hplaced.fields f hf).placed (by decide) ha hwritten
    exact Option.bind_eq_some_iff.mpr ⟨a, ha, hliteral⟩
  column := by
    intro m hm f hf a ha hwritten
    have hplaced := Declaration.isPlaced_of_mem h (mem_declarations_of_mem_models hm)
    have hliteral := Attribute.literal?_of_find? (hplaced.fields f hf).placed (by decide) ha hwritten
    exact Option.bind_eq_some_iff.mpr ⟨a, ha, by rw [Attribute.string?, hliteral]; rfl⟩
  table := by
    intro m hm a ha hwritten
    have hplaced := Declaration.isPlaced_of_mem h (mem_declarations_of_mem_models hm)
    have hliteral := Attribute.literal?_of_find? hplaced.attributes (by decide) ha hwritten
    exact Option.bind_eq_some_iff.mpr ⟨a, ha, by rw [Attribute.string?, hliteral]; rfl⟩

end Texts

/-! ## A user with a motto -/

namespace Document

/-- A user with names and a motto that have quotes, a backslash, a line end and brackets in them. -/
def quotedUser : Model :=
  ⟨⟨"User", ⟨6, 10⟩⟩,
    [⟨⟨"motto", ⟨15, 20⟩⟩, ⟨"String", false, false⟩,
      [⟨⟨"default", ⟨29, 36⟩⟩, .literal (.string "it's \"a\\b\",\n(]"), ⟨28, 57⟩⟩,
        ⟨⟨"map", ⟨59, 62⟩⟩, .literal (.string "my \"motto\""), ⟨58, 78⟩⟩], ⟨15, 78⟩⟩],
    [⟨⟨"map", ⟨83, 86⟩⟩, .literal (.string "user's"), ⟨81, 96⟩⟩], ⟨0, 98⟩⟩

/-- The table of the user. -/
def quotedTable : Sql.Table :=
  { name := "user's"
    columns := [{ name := "my \"motto\"", type := .text, isRequired := true,
                  default := some (.text "it's \"a\\b\",\n(]") }]
    constraints := [] }

theorem isWritable_quotedUser : IsWritable ⟨[.model quotedUser]⟩ := by
  have hattribute {name v : String} {named whole : Span} (hname : IsIdentifier name)
      (hinterpreted : name ∉ interpretedNames) :
      Attribute.IsWritable ⟨⟨name, named⟩, .literal (.string v), whole⟩ :=
    ⟨Grammar.isDottedName_of_isIdentifier hname, hinterpreted, trivial⟩
  refine List.forall_mem_singleton.mpr ⟨by decide, List.forall_mem_cons.mpr
    ⟨⟨by decide, by decide, ?_⟩, List.forall_mem_singleton.mpr (hattribute (by decide) (by decide))⟩⟩
  exact List.forall_mem_cons.mpr ⟨hattribute (by decide) (by decide),
    List.forall_mem_singleton.mpr (hattribute (by decide) (by decide))⟩

theorem isTidy_quotedUser : IsTidy ⟨[.model quotedUser]⟩ := by
  refine List.forall_mem_singleton.mpr (List.forall_mem_cons.mpr ⟨?_, ?_⟩)
  · exact List.forall_mem_cons.mpr ⟨trivial, List.forall_mem_singleton.mpr trivial⟩
  · exact List.forall_mem_singleton.mpr (List.forall_mem_singleton.mpr trivial)

end Document

end SchemaMigration
