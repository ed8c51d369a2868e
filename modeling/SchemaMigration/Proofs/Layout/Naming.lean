import SchemaMigration.Proofs.Layout.Table
import SchemaMigration.Proofs.Schema.Bare
import SchemaMigration.Proofs.Schema.Validity
import SchemaMigration.Proofs.Text.Words

/-! # Names that meet

Validation keeps the names of a schema apart, but not the names in the database that come from them.
Two names there are the same when both are given and are the same, when one is given and is what the
other comes out as, or when both come out the same: names of models and fields do when they show the
same words, and default names of indexes when their tables and columns are the same row of pieces.
-/

namespace SchemaMigration

open Sql (Index)
open Text (pieces shownWords snakeCase)

namespace Layout

/-- Two names in the database are the same. Each is the given one, or else a default, and `same` says
when the defaults are the same. -/
def NamesMeet (given given' : Option String) (default default' : String) (same : Prop) : Prop :=
  match given, given' with
  | some name, some name' => name = name'
  | some name, none => name = default'
  | none, some name' => default = name'
  | none, none => same

instance (given given' : Option String) (default default' : String) (same : Prop)
    [Decidable same] : Decidable (NamesMeet given given' default default' same) :=
  match given, given' with
  | some name, some name' => inferInstanceAs (Decidable (name = name'))
  | some name, none => inferInstanceAs (Decidable (name = default'))
  | none, some name' => inferInstanceAs (Decidable (default = name'))
  | none, none => inferInstanceAs (Decidable same)

theorem getD_eq_getD_iff {given given' : Option String} {default default' : String} {same : Prop}
    (hsame : default = default' ↔ same) :
    given.getD default = given'.getD default' ↔ NamesMeet given given' default default' same := by
  cases given <;> cases given' <;> simp [NamesMeet, hsame]

/-- Default names of indexes are the same exactly when the names of table and columns, cut at their
underscores, are the same row of pieces. -/
theorem defaultIndexName_eq_iff {table table' : String} {columns columns' : List String}
    (h : columns ≠ []) (h' : columns' ≠ []) :
    defaultIndexName table columns = defaultIndexName table' columns' ↔
      (table :: columns).flatMap pieces = (table' :: columns').flatMap pieces := by
  have hjoin (table : String) {columns : List String} (h : columns ≠ []) :
      defaultIndexName table columns = "idx_" ++ "_".intercalate (table :: columns) := by
    rw [String.intercalate_cons_of_ne_nil h, defaultIndexName]
    simp only [String.append_assoc]
  rw [hjoin table h, hjoin table' h', String.append_right_inj, ← Text.pieces_inj,
    Text.pieces_intercalate (List.cons_ne_nil _ _), Text.pieces_intercalate (List.cons_ne_nil _ _)]

end Layout

/-- Two models meet in one table: their given names, or a given name and the snake case of the other
model's name, are the same, or their names differ and show the same words. -/
def Model.MeetsTable (m n : Model) : Prop :=
  Layout.NamesMeet m.mapped? n.mapped? (snakeCase m.name.name) (snakeCase n.name.name)
    (m.name.name ≠ n.name.name ∧ shownWords m.name.name = shownWords n.name.name)

/-- Two fields meet in one column, as models do in a table. -/
def Field.MeetsColumn (f g : Field) : Prop :=
  Layout.NamesMeet f.mapped? g.mapped? (snakeCase f.name.name) (snakeCase g.name.name)
    (f.name.name ≠ g.name.name ∧ shownWords f.name.name = shownWords g.name.name)

instance (m n : Model) : Decidable (m.MeetsTable n) :=
  inferInstanceAs (Decidable (Layout.NamesMeet ..))

instance (f g : Field) : Decidable (f.MeetsColumn g) :=
  inferInstanceAs (Decidable (Layout.NamesMeet ..))

/-! ## Declared indexes -/

/-- An index as a schema declares it: its model, the name given to it, and its columns. -/
structure DeclaredIndex where
  owner : Model
  given : Option String
  columns : List String

namespace DeclaredIndex

def index (i : DeclaredIndex) : Index :=
  i.owner.index i.given i.columns

/-- The names of table and columns, cut at their underscores. -/
def pieces (i : DeclaredIndex) : List (List Char) :=
  (i.owner.tableName :: i.columns).flatMap Text.pieces

/-- Two indexes meet: their given names, or a given name and the default name of the other, are the
same, or their tables and columns are the same row of pieces. -/
def Meets (i j : DeclaredIndex) : Prop :=
  Layout.NamesMeet i.given j.given (Layout.defaultIndexName i.owner.tableName i.columns)
    (Layout.defaultIndexName j.owner.tableName j.columns) (i.pieces = j.pieces)

theorem name_eq_iff {i j : DeclaredIndex} (hi : i.columns ≠ []) (hj : j.columns ≠ []) :
    i.index.name = j.index.name ↔ i.Meets j :=
  Layout.getD_eq_getD_iff (Layout.defaultIndexName_eq_iff hi hj)

end DeclaredIndex

namespace Document

variable {d : Document} {m : Model}

/-- The indexes that a model declares, those of single fields first. -/
def declaredIndexesOf (d : Document) (m : Model) : List DeclaredIndex :=
  (((d.columnFields m).filter fun f => f.has "index").map fun f =>
      ⟨m, f.attributeName? "index", [f.columnName]⟩)
    ++ (m.attributesNamed "index").filterMap fun a =>
      a.fieldList?.map fun list => ⟨m, list.name, list.fields.map m.columnNameOf⟩

def declaredIndexes (d : Document) : List DeclaredIndex :=
  d.models.flatMap d.declaredIndexesOf

theorem map_declaredIndexesOf : (d.declaredIndexesOf m).map DeclaredIndex.index = d.indexes m := by
  simp [declaredIndexesOf, indexes, DeclaredIndex.index, List.map_filterMap, Function.comp_def]

theorem map_declaredIndexes : d.declaredIndexes.map DeclaredIndex.index = d.standaloneIndexes := by
  simp only [declaredIndexes, standaloneIndexes, List.map_flatMap, map_declaredIndexesOf]

/-- An index of a valid document has a column. -/
theorem columns_ne_nil_of_mem_declaredIndexes (h : d.validate = .ok ()) {i : DeclaredIndex}
    (hi : i ∈ d.declaredIndexes) : i.columns ≠ [] := by
  obtain ⟨m, hm, hi⟩ := List.mem_flatMap.mp hi
  simp only [declaredIndexesOf, List.mem_append, List.mem_map, List.mem_filterMap,
    Option.map_eq_some_iff] at hi
  rcases hi with ⟨f, _, rfl⟩ | ⟨a, ha, list, hlist, rfl⟩
  · exact List.cons_ne_nil _ _
  · have hlisted := (listedFields_of_valid h hm (.inl rfl) ha).1
    simpa [Model.listedFields, hlist] using hlisted

/-! ## Names in a valid document -/

/-- In a valid document two models have one table name exactly when they meet, two columns of a model
have one name exactly when their fields meet, and two indexes exactly when their declarations do. -/
theorem names_eq_iff_of_valid (h : d.validate = .ok ()) :
    (∀ m ∈ d.models, ∀ n ∈ d.models, m ≠ n → (m.tableName = n.tableName ↔ m.MeetsTable n)) ∧
    (∀ m ∈ d.models, ∀ f ∈ d.columnFields m, ∀ g ∈ d.columnFields m, f ≠ g →
      (f.columnName = g.columnName ↔ f.MeetsColumn g)) ∧
    d.declaredIndexes.map DeclaredIndex.index = d.standaloneIndexes ∧
    ∀ i ∈ d.declaredIndexes, ∀ j ∈ d.declaredIndexes,
      (i.index.name = j.index.name ↔ i.Meets j) := by
  refine ⟨?_, ?_, map_declaredIndexes, ?_⟩
  · intro m hm n hn hne
    have hnames : m.name.name ≠ n.name.name := mt (model_eq_of_name_eq h hm hn) hne
    refine Layout.getD_eq_getD_iff ?_
    rw [Text.snakeCase_eq_iff, and_iff_right hnames]
  · intro m hm f hf g hg hne
    have hnames : f.name.name ≠ g.name.name := mt (eq_of_nodup_map (fieldNames_nodup h hm)
      (mem_columnFields.mp hf).1 (mem_columnFields.mp hg).1) hne
    refine Layout.getD_eq_getD_iff ?_
    rw [Text.snakeCase_eq_iff, and_iff_right hnames]
  · intro i hi j hj
    exact DeclaredIndex.name_eq_iff (columns_ne_nil_of_mem_declaredIndexes h hi)
      (columns_ne_nil_of_mem_declaredIndexes h hj)

/-! ## Posts under two names -/

/-- A number without a name for its column. -/
def plainField (name : String) (attributes : List Attribute) : Field :=
  ⟨⟨name, .empty⟩, ⟨"Int", false, false⟩, attributes, .empty⟩

def plainPost : Model :=
  ⟨⟨"Post", .empty⟩, [plainField "id" [bareAttribute "id" .none]], [], .empty⟩

/-- Another post, with two fields for a user and two indexes over one of them. -/
def lowerPost : Model :=
  ⟨⟨"post", .empty⟩, [plainField "userId" [bareAttribute "index" .none], plainField "userID" [],
      plainField "mail" []],
    [bareAttribute "index" (.fieldList { fields := ["userId"] })], .empty⟩

def twoPosts : Document :=
  ⟨[.model plainPost, .model lowerPost]⟩

/-- A valid document may give one name to two tables, to two columns and to two indexes. -/
theorem names_repeated_in_twoPosts :
    twoPosts.validate = .ok () ∧
      ¬ (twoPosts.models.map Model.tableName).Nodup ∧
      ¬ (∀ m ∈ twoPosts.models, ((twoPosts.columnFields m).map Field.columnName).Nodup) ∧
      ¬ (twoPosts.standaloneIndexes.map Index.name).Nodup := by
  refine ⟨rfl, ?_, ?_, ?_⟩ <;> decide

/-- The two posts meet, as do the two fields for a user, while the mail meets neither. -/
theorem names_eq_iff_of_twoPosts :
    plainPost.tableName = lowerPost.tableName ∧
      (plainField "userId" [bareAttribute "index" .none]).columnName =
        (plainField "userID" []).columnName ∧
      (plainField "userID" []).columnName ≠ (plainField "mail" []).columnName := by
  have hvalid : twoPosts.validate = .ok () := rfl
  obtain ⟨htables, hcolumns, _⟩ := names_eq_iff_of_valid hvalid
  have hpost : lowerPost ∈ twoPosts.models := by decide
  refine ⟨?_, ?_, ?_⟩
  · exact (htables plainPost (by decide) lowerPost hpost (by decide)).mpr (by decide)
  · exact (hcolumns lowerPost hpost _ (by decide) _ (by decide) (by decide)).mpr (by decide)
  · exact mt (hcolumns lowerPost hpost _ (by decide) _ (by decide) (by decide)).mp (by decide)

end Document

end SchemaMigration
