import SchemaMigration.Proofs.Layout.Mention
import SchemaMigration.Proofs.Schema.WellFormed

/-! # Names that resolve

A layout finds columns by the names of fields. Where no field has a name, it takes the name itself, in
the form that columns have, and it leaves out a constraint or an index whose attribute lists nothing.
A valid document gives no occasion for either: every name that a layout looks up is that of a declared
field, and every relation leads to a model.
-/

namespace SchemaMigration

open Sql (Constraint Index)

namespace Model

variable {m : Model} {names columns : List String}

/-- Names that are resolved to columns, one by one: each is the name of a declared field, and the
column is that of the field. -/
def Resolves (m : Model) (names columns : List String) : Prop :=
  List.Forall₂ (fun name column => ∃ f ∈ m.fields, m.field? name = some f ∧ f.columnName = column)
    names columns

/-- An attribute that lists fields stands for what is made of its name and its resolved columns. -/
def Yields {α : Type} (m : Model) (make : Option String → List String → α) (a : Attribute)
    (clause : α) : Prop :=
  ∃ list columns, a.fieldList? = some list ∧ columns ≠ [] ∧ m.Resolves list.fields columns ∧
    clause = make list.name columns

theorem resolves_map (h : ∀ name ∈ names, ∃ f, m.field? name = some f) :
    m.Resolves names (names.map m.columnNameOf) := by
  apply List.forall₂_map_right_iff.mpr
  apply List.forall₂_same.mpr
  intro name hname
  obtain ⟨f, hf⟩ := h name hname
  exact ⟨f, mem_of_field?_eq_some hf, hf, by rw [columnNameOf, hf]⟩

/-- Attributes that all give a result are not thinned out by leaving out those that give none. -/
theorem forall₂_filterMap {α β : Type} {make : α → Option β} {rel : α → β → Prop} {as : List α}
    (h : ∀ a ∈ as, ∃ b, make a = some b ∧ rel a b) : List.Forall₂ rel as (as.filterMap make) := by
  induction as with
  | nil => exact .nil
  | cons a as ih =>
      obtain ⟨b, hb, hrel⟩ := h a List.mem_cons_self
      rw [List.filterMap_cons_some hb]
      exact .cons hrel (ih fun a ha => h a (List.mem_cons_of_mem _ ha))

end Model

namespace Document

variable {d : Document} {m : Model} {f : Field}

/-- The layout of a model finds what it looks up. The attributes that list fields each give their part
of the table, over columns of declared fields. Every relation gives a foreign key or rightly none, and
a table that cannot be laid out fails for what its own columns and checks are, and never for a
relation. -/
structure Resolves (d : Document) (m : Model) : Prop where
  key : ∀ a, m.attribute? "id" = some a →
    ∃ columns, m.primaryKey? = some columns ∧ m.Yields (fun _ columns => columns) a columns
  unique : List.Forall₂ (m.Yields .unique) (m.attributesNamed "unique") m.uniqueConstraints
  index : ∃ listed, List.Forall₂ (m.Yields m.index) (m.attributesNamed "index") listed ∧
    d.indexes m = (((d.columnFields m).filter fun f => f.has "index").map fun f =>
      m.index (f.attributeName? "index") [f.columnName]) ++ listed
  foreignKey : ∀ f ∈ m.fields, ∃ key, d.foreignKey m f = .ok key ∧ ∀ constraint ∈ key,
    ∃ relation target onDelete onUpdate columns references, f.relation? = some relation ∧
      d.model? f.type.base = some target ∧
      constraint = .foreignKey relation.name
        { columns, table := target.tableName, references, onDelete, onUpdate } ∧
      m.Resolves relation.fields columns ∧ target.Resolves relation.references references ∧
      columns ≠ [] ∧ columns.length = references.length
  failure : ∀ error, d.table m = .error error →
    (∃ fault, error = .invalidModel m.name.name fault) ∨
      ∃ f ∈ m.fields, ∃ fault, error = .invalidField m.name.name f.name.name fault

/-! ## Lists of fields -/

theorem exists_yields (h : d.validate = .ok ()) (hm : m ∈ d.models) {label : String}
    (hlabel : label = "index" ∨ label = "unique" ∨ label = "id") {a : Attribute}
    (ha : a ∈ m.attributesNamed label) {α : Type} (make : Option String → List String → α) :
    ∃ list, a.fieldList? = some list ∧
      m.Yields make a (make list.name (list.fields.map m.columnNameOf)) := by
  obtain ⟨hne, hdeclared⟩ := listedFields_of_valid h hm hlabel ha
  cases hlist : a.fieldList? with
  | none => simp [Model.listedFields, hlist] at hne
  | some list =>
      have hlisted : Model.listedFields a = list.fields := by
        rw [Model.listedFields, hlist]
        rfl
      rw [hlisted] at hne hdeclared
      exact ⟨list, rfl, list, _, hlist, by simpa using hne, Model.resolves_map hdeclared, rfl⟩

theorem forall₂_yields (h : d.validate = .ok ()) (hm : m ∈ d.models) {label : String}
    (hlabel : label = "index" ∨ label = "unique" ∨ label = "id") {α : Type}
    (make : Option String → List String → α) :
    List.Forall₂ (m.Yields make) (m.attributesNamed label)
      ((m.attributesNamed label).filterMap fun a =>
        a.fieldList?.map fun list => make list.name (list.fields.map m.columnNameOf)) := by
  apply Model.forall₂_filterMap
  intro a ha
  obtain ⟨list, hlist, hyields⟩ := exists_yields h hm hlabel ha make
  exact ⟨_, by rw [hlist]; rfl, hyields⟩

theorem primaryKey?_of_valid (h : d.validate = .ok ()) (hm : m ∈ d.models) {a : Attribute}
    (ha : m.attribute? "id" = some a) :
    ∃ columns, m.primaryKey? = some columns ∧ m.Yields (fun _ columns => columns) a columns := by
  obtain ⟨list, hlist, hyields⟩ :=
    exists_yields h hm (by simp) (Model.mem_attributesNamed_of_attribute? ha) fun _ columns => columns
  refine ⟨_, ?_, hyields⟩
  simp only [Model.primaryKey?, ha, Option.bind_some, hlist]

/-! ## Relations -/

theorem referentialAction_of_known {keyword : Option String}
    (h : ∀ word, keyword = some word → ∃ action : ReferentialAction, action.keyword = word) :
    ∃ action, referentialAction keyword = .ok action := by
  cases keyword with
  | none => exact ⟨none, rfl⟩
  | some word =>
      cases hknown : ReferentialAction.ofKeyword? word with
      | none => exact absurd (h word rfl) (ofKeyword?_eq_none_iff.mp hknown)
      | some action => exact ⟨some action, by simp only [referentialAction, hknown]⟩

theorem isSound_of_valid (h : d.validate = .ok ()) (hm : m ∈ d.models) (hf : f ∈ m.fields)
    {relation : RelationArgs} (hrelation : f.relation? = some relation) :
    relation.IsSound m f.type.base d :=
  (isWellFormed_of_valid h hm).relations f hf relation hrelation

/-- A sound relation always gives a foreign key, or none if it names no fields. -/
theorem exists_foreignKey (h : d.validate = .ok ()) (hm : m ∈ d.models) (hf : f ∈ m.fields) :
    ∃ key, d.foreignKey m f = .ok key := by
  cases hrelation : f.relation? with
  | none => exact ⟨none, by rw [foreignKey, hrelation]⟩
  | some relation =>
      cases hkey : relation.hasForeignKey with
      | false => exact ⟨none, foreignKey_eq_ok_none_iff.mpr (by simp [Field.hasForeignKey, *])⟩
      | true =>
          have hsound := isSound_of_valid h hm hf hrelation
          obtain ⟨onDelete, hdelete⟩ := referentialAction_of_known fun word hword =>
            hsound.actions word (.inl hword)
          obtain ⟨onUpdate, hupdate⟩ := referentialAction_of_known fun word hword =>
            hsound.actions word (.inr hword)
          obtain ⟨target, htarget, _⟩ := exists_target_of_relation h hm hf hrelation
          exact ⟨_, foreignKey_eq_ok_some_iff.mpr ⟨relation, target, onDelete, onUpdate, hrelation,
            hkey, htarget, hdelete, hupdate, rfl⟩⟩

theorem columns_of_foreignKey_of_valid (h : d.validate = .ok ()) (hm : m ∈ d.models)
    (hf : f ∈ m.fields) {constraint : Constraint} (hkey : d.foreignKey m f = .ok (some constraint)) :
    ∃ relation target onDelete onUpdate columns references, f.relation? = some relation ∧
      d.model? f.type.base = some target ∧
      constraint = .foreignKey relation.name
        { columns, table := target.tableName, references, onDelete, onUpdate } ∧
      m.Resolves relation.fields columns ∧ target.Resolves relation.references references ∧
      columns ≠ [] ∧ columns.length = references.length := by
  obtain ⟨relation, target, onDelete, onUpdate, hrelation, hlocal, htarget, _, _, rfl⟩ :=
    foreignKey_eq_ok_some_iff.mp hkey
  have hsound := isSound_of_valid h hm hf hrelation
  obtain ⟨target', htarget', hdeclared⟩ := exists_target_of_relation h hm hf hrelation
  obtain rfl := Option.some.inj (htarget'.symm.trans htarget)
  refine ⟨relation, target', onDelete, onUpdate, _, _, hrelation, htarget, rfl,
    Model.resolves_map fun name hname => exists_field_of_local h hm hf hrelation hname,
    Model.resolves_map hdeclared, ?_, ?_⟩
  · simpa [RelationArgs.hasForeignKey] using hlocal
  · rw [List.length_map, List.length_map, hsound.even]

/-! ## Failures -/

theorem columns_eq_error {error : SchemaError} (h : d.columns m = .error error) :
    ∃ f ∈ m.fields, ∃ fault, error = .invalidField m.name.name f.name.name fault := by
  obtain ⟨before, f, after, _, hfields, _, hf⟩ := mapM_eq_error_iff.mp h
  obtain ⟨fault, _, rfl⟩ := mapError_eq_error_iff.mp hf
  have hmem : f ∈ d.columnFields m := by
    rw [hfields]
    exact List.mem_append_right _ List.mem_cons_self
  exact ⟨f, (mem_columnFields.mp hmem).1, fault, rfl⟩

/-- A table is not laid out when one of its columns, one of its checks or one of its foreign keys is
not, or when it has no columns. -/
theorem table_eq_error {error : SchemaError} (h : d.table m = .error error) :
    d.columns m = .error error ∨ (∃ fault, error = .invalidModel m.name.name fault) ∨
      d.foreignKeys m = .error error := by
  unfold table at h
  rcases bind_eq_error_iff.mp h with h | ⟨columns, _, h⟩
  · exact .inl h
  · split at h
    · cases h
      exact .inr (.inl ⟨_, rfl⟩)
    · rcases bind_eq_error_iff.mp h with h | ⟨checks, _, h⟩
      · obtain ⟨fault, _, rfl⟩ := mapError_eq_error_iff.mp h
        exact .inr (.inl ⟨fault, rfl⟩)
      · rcases bind_eq_error_iff.mp h with h | ⟨_, _, h⟩
        · exact .inr (.inr h)
        · cases h

theorem exists_foreignKeys (h : d.validate = .ok ()) (hm : m ∈ d.models) :
    ∃ constraints, d.foreignKeys m = .ok constraints := by
  obtain ⟨keys, hkeys⟩ := exists_mapM_eq_ok fun f hf => exists_foreignKey h hm hf
  exact ⟨_, foreignKeys_eq_ok_iff.mpr ⟨keys, mapM_eq_ok_iff.mp hkeys, rfl⟩⟩

end Document

end SchemaMigration
