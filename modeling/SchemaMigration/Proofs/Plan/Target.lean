import Mathlib.Data.List.Flatten
import SchemaMigration.Proofs.Plan.Catalogue

/-! # Catalogues of documents

The catalogue of a document is that of a database laid out after it. A plan aims at the catalogue of
the new document, and at one unique index for each column that it adds and that must be unique.
Whether it gets there depends on names: each table and each index must belong to one model.
-/

namespace SchemaMigration

open Sql (Column Index Table)

namespace Document

/-- The names of the columns of a model's table. -/
def columnNames (d : Document) (m : Model) : Finset String :=
  ((d.columnFields m).map Field.columnName).toFinset

/-- The unique indexes that would stand for the unique constraints of a model's columns. -/
def uniqueIndexes (d : Document) (m : Model) : List Index :=
  (d.columnFields m).filterMap m.uniqueIndex?

/-- The catalogue of a database that is laid out after a document. -/
def catalogue (d : Document) : Catalogue where
  tables := assignAll (fun _ => none) (d.models.map fun m => (m.tableName, d.columnNames m))
  indexes := assignAll (fun _ => none) (d.standaloneIndexes.map Index.entry)

/-- The fields among some that come to a model as columns. -/
def addedAmong (d : Document) (previous : Model) (fields : List Field) : List Field :=
  (fields.filter d.isColumn).filter fun f => (previous.field? f.name.name).isNone

/-- The unique indexes that a plan creates for the columns it adds to a model. -/
def addedUniqueIndexes (old new : Document) (m : Model) : List Index :=
  match old.model? m.name.name with
  | some previous => (new.addedAmong previous m.fields).filterMap m.uniqueIndex?
  | none => []

/-- The catalogue that a plan aims at. -/
def target (old new : Document) : Catalogue :=
  new.catalogue.withIndexes (new.models.flatMap (old.addedUniqueIndexes new))

/-! ## Names that belong to one model -/

/-- The names of all tables, with the names of their models. -/
def tableNames (d : Document) : List (String × String) :=
  d.models.map fun m => (m.tableName, m.name.name)

/-- The names of all indexes, those of unique columns included, with the names of their models. -/
def indexNames (d : Document) : List (String × String) :=
  d.models.flatMap fun m => (d.indexes m ++ d.uniqueIndexes m).map fun i => (i.name, m.name.name)

end Document

/-- Names in two documents, each with its owner: a name has one owner in both and is used once in
each. -/
@[mk_iff]
structure OwnedApart (old new : List (String × String)) : Prop where
  once_old : (old.map Prod.fst).Nodup
  once_new : (new.map Prod.fst).Nodup
  owner : ∀ p ∈ old ++ new, ∀ q ∈ old ++ new, p.1 = q.1 → p.2 = q.2

instance (old new : List (String × String)) : Decidable (OwnedApart old new) :=
  decidable_of_iff' _ (ownedApart_iff old new)

/-- The names of two documents keep their tables, indexes and columns apart. Names of unique indexes
are never those of other indexes, and what an index lists are columns. -/
@[mk_iff]
structure Document.NamesApart (old new : Document) : Prop where
  tables : OwnedApart old.tableNames new.tableNames
  indexes : OwnedApart old.indexNames new.indexNames
  unique : ∀ i ∈ old.models.flatMap old.uniqueIndexes ++ new.models.flatMap new.uniqueIndexes,
    ∀ j ∈ old.standaloneIndexes ++ new.standaloneIndexes, i.name ≠ j.name
  columns : ∀ d ∈ [old, new], ∀ m ∈ d.models,
    ((d.columnFields m).map Field.columnName).Nodup
  indexed : ∀ d ∈ [old, new], ∀ m ∈ d.models, ∀ a ∈ m.attributesNamed "index",
    ∀ name ∈ Model.listedFields a, (m.field? name).any d.isColumn = true

instance (old new : Document) : Decidable (old.NamesApart new) :=
  decidable_of_iff' _ (Document.namesApart_iff old new)

/-- A name is that of an index of a model, in one of two documents. -/
def Document.Uses (old new : Document) (m : Model) (name : String) : Prop :=
  (name, m.name.name) ∈ old.indexNames ++ new.indexNames

namespace Document

variable {old new : Document} {m : Model}

theorem mem_columnNames {d : Document} {name : String} :
    name ∈ d.columnNames m ↔ ∃ f ∈ m.fields, d.isColumn f = true ∧ f.columnName = name := by
  simp [columnNames, mem_columnFields, and_assoc]

theorem mem_addedAmong {d : Document} {previous : Model} {fields : List Field} {f : Field} :
    f ∈ d.addedAmong previous fields ↔
      f ∈ fields ∧ d.isColumn f = true ∧ previous.field? f.name.name = none := by
  simp only [addedAmong, List.mem_filter, Option.isNone_iff_eq_none, and_assoc]

/-- A column that is listed by an index of a model is a column of its table. -/
theorem mem_columnNames_of_index {d : Document}
    (hindexed : ∀ a ∈ m.attributesNamed "index", ∀ name ∈ Model.listedFields a,
      (m.field? name).any d.isColumn = true)
    {index : Index} (h : index ∈ d.indexes m) {name : String} (hname : name ∈ index.columns) :
    name ∈ d.columnNames m := by
  simp only [indexes, List.mem_append, List.mem_map, List.mem_filter, List.mem_filterMap,
    Option.map_eq_some_iff, mem_columnFields] at h
  rcases h with ⟨f, ⟨⟨hf, hcolumn⟩, _⟩, rfl⟩ | ⟨a, ha, list, hlist, rfl⟩
  · simp only [Model.index, List.mem_singleton] at hname
    exact mem_columnNames.mpr ⟨f, hf, hcolumn, hname.symm⟩
  · simp only [Model.index, List.mem_map] at hname
    obtain ⟨field, hfield, rfl⟩ := hname
    have hlisted : field ∈ Model.listedFields a := by simpa [Model.listedFields, hlist] using hfield
    obtain ⟨f, hf, hcolumn⟩ := (Option.any_eq_true _ _).mp (hindexed a ha field hlisted)
    refine mem_columnNames.mpr ⟨f, Model.mem_of_field?_eq_some hf, hcolumn, ?_⟩
    simp [Model.columnNameOf, hf]

theorem addedUniqueIndexes_sublist (old new : Document) (m : Model) :
    (old.addedUniqueIndexes new m).Sublist (new.uniqueIndexes m) := by
  unfold addedUniqueIndexes
  split
  · exact List.filter_sublist.filterMap _
  · exact List.nil_sublist _

/-- The unique index of a column is an index of the model's table. -/
theorem uniqueIndexes_table {d : Document} {index : Index} (h : index ∈ d.uniqueIndexes m) :
    index.table = m.tableName := by
  obtain ⟨f, _, hf⟩ := List.mem_filterMap.mp h
  obtain ⟨_, rfl⟩ := Model.uniqueIndex?_eq_some_iff.mp hf
  rfl

/-! ## Looking up names -/

theorem uses_of_index_old (hm : m ∈ old.models) {index : Index} (h : index ∈ old.indexes m) :
    old.Uses new m index.name :=
  List.mem_append_left _ (List.mem_flatMap.mpr
    ⟨m, hm, List.mem_map.mpr ⟨index, List.mem_append_left _ h, rfl⟩⟩)

theorem uses_of_index_new (hm : m ∈ new.models) {index : Index}
    (h : index ∈ new.indexes m ++ new.uniqueIndexes m) : old.Uses new m index.name :=
  List.mem_append_right _ (List.mem_flatMap.mpr ⟨m, hm, List.mem_map.mpr ⟨index, h, rfl⟩⟩)

theorem Uses.congr {n : Model} {name : String} (h : old.Uses new m name)
    (heq : m.name.name = n.name.name) : old.Uses new n name := by
  unfold Uses at h ⊢
  rwa [← heq]

namespace NamesApart

variable (h : old.NamesApart new)
include h

/-- Models that use one name for an index have one name. -/
theorem owner_of_uses {n : Model} {name : String} (hm : old.Uses new m name)
    (hn : old.Uses new n name) : m.name.name = n.name.name :=
  h.indexes.owner _ hm _ hn rfl

/-- Models with one table name have one name. -/
theorem owner_of_tableName {n : Model} (hm : m ∈ old.models ++ new.models)
    (hn : n ∈ old.models ++ new.models) (heq : m.tableName = n.tableName) :
    m.name.name = n.name.name := by
  have hmem (k : Model) (hk : k ∈ old.models ++ new.models) :
      (k.tableName, k.name.name) ∈ old.tableNames ++ new.tableNames := by
    simp only [tableNames, ← List.map_append]
    exact List.mem_map.mpr ⟨k, hk, rfl⟩
  exact h.tables.owner _ (hmem m hm) _ (hmem n hn) heq

theorem standaloneNames_nodup {d : Document} (hd : d ∈ [old, new]) :
    (d.standaloneIndexes.map Index.name).Nodup := by
  have honce : (d.indexNames.map Prod.fst).Nodup := by
    simp only [List.mem_cons, List.not_mem_nil, or_false] at hd
    rcases hd with rfl | rfl
    · exact h.indexes.once_old
    · exact h.indexes.once_new
  refine honce.sublist ?_
  simp only [standaloneIndexes, indexNames, List.map_flatMap, List.map_map]
  refine List.Sublist.flatMap_right _ fun m _ => ?_
  exact (List.sublist_append_left _ _).map _

theorem targetNames_nodup :
    ((new.standaloneIndexes ++ new.models.flatMap (old.addedUniqueIndexes new)).map
      Index.name).Nodup := by
  rw [List.map_append, List.nodup_append]
  refine ⟨h.standaloneNames_nodup (by simp), ?_, ?_⟩
  · refine h.indexes.once_new.sublist ?_
    simp only [indexNames, List.map_flatMap, List.map_map]
    refine List.Sublist.flatMap_right _ fun m _ => ?_
    exact ((addedUniqueIndexes_sublist old new m).trans (List.sublist_append_right _ _)).map _
  · intro name hname other hother heq
    obtain ⟨j, hj, rfl⟩ := List.mem_map.mp hname
    obtain ⟨i, hi, rfl⟩ := List.mem_map.mp hother
    obtain ⟨m, hm, hi⟩ := List.mem_flatMap.mp hi
    exact h.unique i (List.mem_append_right _ (List.mem_flatMap.mpr
      ⟨m, hm, (addedUniqueIndexes_sublist old new m).subset hi⟩)) j
      (List.mem_append_right _ hj) heq.symm

/-- What a model of the old document brings to its catalogue is found there by name. -/
theorem catalogue_index_of_mem {d : Document} (hd : d ∈ [old, new]) (hm : m ∈ d.models)
    {index : Index} (hindex : index ∈ d.indexes m) :
    d.catalogue.indexes index.name = some (index.table, index.columns) := by
  have hentry : index.entry ∈ d.standaloneIndexes.map Index.entry :=
    List.mem_map_of_mem (List.mem_flatMap.mpr ⟨m, hm, hindex⟩)
  refine assignAll_of_mem ?_ hentry
  rw [List.map_map]
  exact h.standaloneNames_nodup hd

theorem catalogue_table_of_mem {d : Document} (hd : d ∈ [old, new]) (hm : m ∈ d.models) :
    d.catalogue.tables m.tableName = some (d.columnNames m) := by
  have honce : (d.tableNames.map Prod.fst).Nodup := by
    simp only [List.mem_cons, List.not_mem_nil, or_false] at hd
    rcases hd with rfl | rfl
    · exact h.tables.once_old
    · exact h.tables.once_new
  have hentry : (m.tableName, d.columnNames m) ∈
      d.models.map fun m => (m.tableName, d.columnNames m) := List.mem_map.mpr ⟨m, hm, rfl⟩
  refine assignAll_of_mem ?_ hentry
  rw [tableNames, List.map_map] at honce
  rwa [List.map_map]

theorem target_index_of_mem (hm : m ∈ new.models) {index : Index}
    (hindex : index ∈ new.indexes m ++ old.addedUniqueIndexes new m) :
    (old.target new).indexes index.name = some (index.table, index.columns) := by
  have hmem : index ∈ new.standaloneIndexes ++ new.models.flatMap (old.addedUniqueIndexes new) := by
    rcases List.mem_append.mp hindex with hindex | hindex
    · exact List.mem_append_left _ (List.mem_flatMap.mpr ⟨m, hm, hindex⟩)
    · exact List.mem_append_right _ (List.mem_flatMap.mpr ⟨m, hm, hindex⟩)
  have hentry : index.entry ∈ (new.standaloneIndexes
      ++ new.models.flatMap (old.addedUniqueIndexes new)).map Index.entry :=
    List.mem_map_of_mem hmem
  have hlookup : assignAll (fun _ => none) ((new.standaloneIndexes
        ++ new.models.flatMap (old.addedUniqueIndexes new)).map Index.entry) index.name =
      some (index.table, index.columns) :=
    assignAll_of_mem (by rw [List.map_map]; exact h.targetNames_nodup) hentry
  rwa [List.map_append, assignAll_append] at hlookup

end NamesApart

theorem catalogue_index_eq_none {d : Document} {name : String}
    (h : ∀ m ∈ d.models, ∀ index ∈ d.indexes m, index.name ≠ name) :
    d.catalogue.indexes name = none := by
  apply assignAll_of_notMem
  simpa [standaloneIndexes, Index.entry] using fun index m hm => h m hm index

theorem catalogue_table_eq_none {d : Document} {table : String}
    (h : ∀ m ∈ d.models, m.tableName ≠ table) : d.catalogue.tables table = none := by
  apply assignAll_of_notMem
  simpa using h

theorem exists_of_catalogue_index {d : Document} {name : String} {entry : String × List String}
    (h : d.catalogue.indexes name = some entry) :
    ∃ m ∈ d.models, ∃ index ∈ d.indexes m, index.name = name ∧ index.table = entry.1 := by
  rcases mem_of_assignAll_eq_some h with hmem | hnone
  · obtain ⟨index, hindex, heq⟩ := List.mem_map.mp hmem
    obtain ⟨m, hm, hindex⟩ := List.mem_flatMap.mp hindex
    simp only [Index.entry, Prod.ext_iff] at heq
    exact ⟨m, hm, index, hindex, heq.1, heq.2.1⟩
  · simp at hnone

/-- The indexes of the target stand on tables of the new document. -/
theorem exists_of_target_index {name : String} {entry : String × List String}
    (h : (old.target new).indexes name = some entry) : ∃ m ∈ new.models, m.tableName = entry.1 := by
  rcases mem_of_assignAll_eq_some h with hmem | hcatalogue
  · obtain ⟨index, hindex, heq⟩ := List.mem_map.mp hmem
    obtain ⟨m, hm, hindex⟩ := List.mem_flatMap.mp hindex
    simp only [Index.entry, Prod.ext_iff] at heq
    refine ⟨m, hm, ?_⟩
    rw [← heq.2.1, uniqueIndexes_table ((addedUniqueIndexes_sublist old new m).subset hindex)]
  · obtain ⟨m, hm, index, hindex, _, htable⟩ := exists_of_catalogue_index hcatalogue
    exact ⟨m, hm, by rw [← htable, index_table hindex]⟩

theorem target_index_eq_none {name : String}
    (h : ∀ m ∈ new.models, ∀ index ∈ new.indexes m ++ old.addedUniqueIndexes new m,
      index.name ≠ name) : (old.target new).indexes name = none := by
  have hadded : name ∉ (new.models.flatMap (old.addedUniqueIndexes new)).map Index.name := by
    simp only [List.mem_map, List.mem_flatMap, not_exists, not_and]
    rintro index ⟨m, hm, hindex⟩
    exact h m hm index (List.mem_append_right _ hindex)
  rw [target, Catalogue.withIndexes_of_notMem hadded]
  exact catalogue_index_eq_none fun m hm index hindex =>
    h m hm index (List.mem_append_left _ hindex)

end Document

end SchemaMigration
