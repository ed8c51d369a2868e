import Mathlib.Data.Finset.Basic
import Mathlib.Data.Finset.Dedup
import Mathlib.Data.Finset.Lattice.Lemmas
import Mathlib.Logic.Function.Basic
import SchemaMigration.Proofs.Plan.Composition

/-! # Catalogues

A catalogue is what a database holds by name: tables with the names of their columns, and indexes
with their tables and columns. A change is a step from one catalogue to another, and it is refused
where the database would refuse its statement: a new name must be free, an old one must be there,
and an index needs its table and columns.
-/

namespace SchemaMigration

open Sql (Column Index Table)

/-! ## Assignments -/

section Assignment

variable {β : Type}

/-- A map with further entries. -/
def assignAll (map : String → Option β) (entries : List (String × β)) : String → Option β :=
  entries.foldl (fun map entry => Function.update map entry.1 (some entry.2)) map

theorem assignAll_append (map : String → Option β) (first second : List (String × β)) :
    assignAll map (first ++ second) = assignAll (assignAll map first) second :=
  List.foldl_append

theorem assignAll_of_notMem {map : String → Option β} {entries : List (String × β)} {name : String}
    (h : name ∉ entries.map Prod.fst) : assignAll map entries name = map name := by
  induction entries generalizing map with
  | nil => rfl
  | cons entry rest ih =>
      simp only [List.map_cons, List.mem_cons, not_or] at h
      have hrest : assignAll (Function.update map entry.1 (some entry.2)) rest name =
          Function.update map entry.1 (some entry.2) name := ih h.2
      rw [Function.update_of_ne h.1] at hrest
      exact hrest

theorem mem_of_assignAll_eq_some {map : String → Option β} {entries : List (String × β)}
    {name : String} {value : β} (h : assignAll map entries name = some value) :
    (name, value) ∈ entries ∨ map name = some value := by
  induction entries generalizing map with
  | nil => exact .inr h
  | cons entry rest ih =>
      have hrest : assignAll (Function.update map entry.1 (some entry.2)) rest name =
          some value := h
      rcases ih hrest with hmem | hmap
      · exact .inl (List.mem_cons_of_mem _ hmem)
      · by_cases hname : name = entry.1
        · rw [hname, Function.update_self, Option.some.injEq] at hmap
          exact .inl (by simp [hname, ← hmap])
        · rw [Function.update_of_ne hname] at hmap
          exact .inr hmap

theorem assignAll_of_mem {map : String → Option β} {entries : List (String × β)}
    (hnodup : (entries.map Prod.fst).Nodup) {entry : String × β} (h : entry ∈ entries) :
    assignAll map entries entry.1 = some entry.2 := by
  induction entries generalizing map with
  | nil => simp at h
  | cons head rest ih =>
      obtain ⟨hhead, hrest⟩ := List.nodup_cons.mp hnodup
      rcases List.mem_cons.mp h with rfl | h
      · have hother : assignAll (Function.update map entry.1 (some entry.2)) rest entry.1 =
            Function.update map entry.1 (some entry.2) entry.1 := assignAll_of_notMem hhead
        rw [Function.update_self] at hother
        exact hother
      · exact ih hrest h

end Assignment

/-- What a database holds by name: the names of the columns of each table, and the table and the
columns of each index. -/
@[ext]
structure Catalogue where
  tables : String → Option (Finset String)
  indexes : String → Option (String × List String)

/-- The entry of an index in a catalogue. -/
def Sql.Index.entry (index : Index) : String × String × List String :=
  (index.name, index.table, index.columns)

namespace Catalogue

/-- The catalogue of an empty database. -/
def empty : Catalogue :=
  ⟨fun _ => none, fun _ => none⟩

/-- A catalogue with the columns of a table replaced. -/
def withTable (c : Catalogue) (table : String) (columns : Finset String) : Catalogue :=
  { c with tables := Function.update c.tables table (some columns) }

/-- A catalogue without the tables of some names and their indexes. -/
def withoutTables (c : Catalogue) (names : List String) : Catalogue where
  tables := fun table => if table ∈ names then none else c.tables table
  indexes := fun name => (c.indexes name).filter fun entry => entry.1 ∉ names

/-- A catalogue with further indexes. -/
def withIndexes (c : Catalogue) (indexes : List Index) : Catalogue :=
  { c with indexes := assignAll c.indexes (indexes.map Index.entry) }

/-- A catalogue without the indexes of some names. -/
def withoutIndexes (c : Catalogue) (names : List String) : Catalogue :=
  { c with indexes := fun name => if name ∈ names then none else c.indexes name }

/-- The catalogue after a change, unless the change is refused. -/
def step (c : Catalogue) : Change → Option Catalogue
  | .createTable _ table =>
    match c.tables table.name with
    | none => some (c.withTable table.name (table.columns.map Column.name).toFinset)
    | some _ => none
  | .dropTable _ table =>
    match c.tables table with
    | none => none
    | some _ => some (c.withoutTables [table])
  | .addColumn table column =>
    match c.tables table with
    | none => none
    | some columns =>
      if column.name ∈ columns then none
      else some (c.withTable table (insert column.name columns))
  | .createIndex index =>
    match c.tables index.table, c.indexes index.name with
    | some columns, none =>
      if ∀ column ∈ index.columns, column ∈ columns then some (c.withIndexes [index]) else none
    | _, _ => none
  | .dropIndex index =>
    match c.indexes index.name with
    | none => none
    | some _ => some (c.withoutIndexes [index.name])

/-- The catalogue after changes in order, unless one of them is refused. -/
def replay (c : Catalogue) : List Change → Option Catalogue
  | [] => some c
  | change :: changes => (c.step change).bind fun c => c.replay changes

theorem replay_append (c : Catalogue) (first second : List Change) :
    c.replay (first ++ second) = (c.replay first).bind fun c => c.replay second := by
  induction first generalizing c with
  | nil => rfl
  | cons change first ih => simp only [List.cons_append, replay, ih, Option.bind_assoc]

theorem replay_append_of_eq {c middle : Catalogue} {first second : List Change}
    (h : c.replay first = some middle) : c.replay (first ++ second) = middle.replay second := by
  rw [replay_append, h, Option.bind_some]

/-! ## Tables of a catalogue -/

section Tables

variable {c : Catalogue} {table : String} {columns : Finset String}

theorem withTable_of_eq (h : c.tables table = some columns) : c.withTable table columns = c := by
  apply Catalogue.ext
  · exact Function.update_eq_self_iff.mpr h.symm
  · rfl

theorem withTable_withTable (c : Catalogue) (table : String) (first second : Finset String) :
    (c.withTable table first).withTable table second = c.withTable table second := by
  simp [withTable]

theorem step_createTable {model : String} {table : Table} (h : c.tables table.name = none) :
    c.step (.createTable model table) =
      some (c.withTable table.name (table.columns.map Column.name).toFinset) := by
  simp only [step, h]

theorem step_addColumn {column : Column} (htable : c.tables table = some columns)
    (hnew : column.name ∉ columns) :
    c.step (.addColumn table column) = some (c.withTable table (insert column.name columns)) := by
  simp only [step, htable, if_neg hnew]

theorem step_dropTable {model : String} (h : c.tables table = some columns) :
    c.step (.dropTable model table) = some (c.withoutTables [table]) := by
  simp only [step, h]

theorem withoutTables_nil (c : Catalogue) : c.withoutTables [] = c := by
  apply Catalogue.ext
  · rfl
  · funext name
    cases hentry : c.indexes name <;> simp [withoutTables, hentry]

theorem withoutTables_withoutTables (c : Catalogue) (first second : List String) :
    (c.withoutTables first).withoutTables second = c.withoutTables (first ++ second) := by
  apply Catalogue.ext
  · funext table
    by_cases hfirst : table ∈ first <;> simp [withoutTables, hfirst]
  · funext name
    cases hentry : c.indexes name with
    | none => simp [withoutTables, hentry]
    | some entry => simp [withoutTables, hentry, Option.filter_filter]

/-- Tables that are there are dropped one after the other, with their indexes. -/
theorem replay_dropTables {models : List Model} (hnodup : (models.map Model.tableName).Nodup)
    (hthere : ∀ m ∈ models, c.tables m.tableName ≠ none) :
    c.replay (models.map fun m => .dropTable m.name.name m.tableName) =
      some (c.withoutTables (models.map Model.tableName)) := by
  induction models generalizing c with
  | nil => rw [List.map_nil, List.map_nil, replay, withoutTables_nil]
  | cons m rest ih =>
      obtain ⟨hhead, hrest⟩ := List.nodup_cons.mp hnodup
      obtain ⟨columns, hcolumns⟩ := Option.ne_none_iff_exists'.mp (hthere m List.mem_cons_self)
      rw [List.map_cons, replay, step_dropTable hcolumns, Option.bind_some, ih hrest,
        withoutTables_withoutTables, List.singleton_append, List.map_cons]
      intro other h
      have hne : other.tableName ≠ m.tableName := fun heq => hhead (heq ▸ List.mem_map_of_mem h)
      simpa [withoutTables, hne] using hthere other (List.mem_cons_of_mem _ h)

end Tables

/-! ## Indexes of a catalogue -/

section Indexes

variable {c : Catalogue} {indexes : List Index} {name : String}

theorem withIndexes_nil (c : Catalogue) : c.withIndexes [] = c :=
  rfl

theorem withIndexes_withTable (c : Catalogue) (indexes : List Index) (table : String)
    (columns : Finset String) :
    (c.withIndexes indexes).withTable table columns =
      (c.withTable table columns).withIndexes indexes :=
  rfl

theorem withIndexes_cons (c : Catalogue) (index : Index) (indexes : List Index) :
    c.withIndexes (index :: indexes) = (c.withIndexes [index]).withIndexes indexes :=
  rfl

theorem withIndexes_append (c : Catalogue) (first second : List Index) :
    c.withIndexes (first ++ second) = (c.withIndexes first).withIndexes second := by
  simp only [withIndexes, List.map_append, assignAll_append]

theorem withIndexes_of_notMem (h : name ∉ indexes.map Index.name) :
    (c.withIndexes indexes).indexes name = c.indexes name := by
  apply assignAll_of_notMem
  rwa [List.map_map]

theorem withIndexes_of_mem (hnodup : (indexes.map Index.name).Nodup) {index : Index}
    (h : index ∈ indexes) :
    (c.withIndexes indexes).indexes index.name = some (index.table, index.columns) := by
  have hentry : index.entry ∈ indexes.map Index.entry := List.mem_map_of_mem h
  refine assignAll_of_mem ?_ hentry
  rwa [List.map_map]

theorem withIndexes_singleton_of_ne {index : Index} (h : name ≠ index.name) :
    (c.withIndexes [index]).indexes name = c.indexes name :=
  withIndexes_of_notMem (by simpa using h)

/-- An index can be created as far as its table is concerned: the table is there with the columns
that are indexed. -/
def Fits (c : Catalogue) (index : Index) : Prop :=
  ∃ columns, c.tables index.table = some columns ∧ ∀ column ∈ index.columns, column ∈ columns

theorem step_createIndex {index : Index} (hfits : c.Fits index)
    (hfree : c.indexes index.name = none) :
    c.step (.createIndex index) = some (c.withIndexes [index]) := by
  obtain ⟨columns, htable, hcolumns⟩ := hfits
  simp only [step, htable, hfree, if_pos hcolumns]

theorem step_dropIndex {index : Index} {entry : String × List String}
    (h : c.indexes index.name = some entry) :
    c.step (.dropIndex index) = some (c.withoutIndexes [index.name]) := by
  simp only [step, h]

/-- Indexes with new names are created one after the other. -/
theorem replay_createIndexes (hnodup : (indexes.map Index.name).Nodup)
    (hfits : ∀ index ∈ indexes, c.Fits index)
    (hfree : ∀ index ∈ indexes, c.indexes index.name = none) :
    c.replay (indexes.map .createIndex) = some (c.withIndexes indexes) := by
  induction indexes generalizing c with
  | nil => rfl
  | cons index rest ih =>
      obtain ⟨hhead, hrest⟩ := List.nodup_cons.mp hnodup
      rw [List.map_cons, replay, step_createIndex (hfits index List.mem_cons_self)
        (hfree index List.mem_cons_self), Option.bind_some, withIndexes_cons c index rest]
      refine ih hrest (fun other h => hfits other (List.mem_cons_of_mem _ h)) fun other h => ?_
      have hne : other.name ≠ index.name := fun heq => hhead (heq ▸ List.mem_map_of_mem h)
      rw [withIndexes_singleton_of_ne hne]
      exact hfree other (List.mem_cons_of_mem _ h)

/-- Indexes that are there are dropped one after the other. -/
theorem replay_dropIndexes (hnodup : (indexes.map Index.name).Nodup)
    (hthere : ∀ index ∈ indexes, c.indexes index.name ≠ none) :
    c.replay (indexes.map .dropIndex) = some (c.withoutIndexes (indexes.map Index.name)) := by
  induction indexes generalizing c with
  | nil => simp [replay, withoutIndexes]
  | cons index rest ih =>
      obtain ⟨hhead, hrest⟩ := List.nodup_cons.mp hnodup
      obtain ⟨entry, hentry⟩ := Option.ne_none_iff_exists'.mp (hthere index List.mem_cons_self)
      rw [List.map_cons, replay, step_dropIndex hentry, Option.bind_some, ih hrest]
      · simp only [withoutIndexes, List.map_cons, List.mem_cons]
        congr 2
        funext name
        by_cases hname : name = index.name <;> simp [hname]
      · intro other h
        have hne : other.name ≠ index.name := fun heq => hhead (heq ▸ List.mem_map_of_mem h)
        simpa [withoutIndexes, hne] using hthere other (List.mem_cons_of_mem _ h)

/-- Replacing an index of a name by another one leaves only the other one. -/
theorem withIndexes_withoutIndexes (c : Catalogue) (index : Index) :
    (c.withoutIndexes [index.name]).withIndexes [index] = c.withIndexes [index] := by
  apply Catalogue.ext
  · rfl
  · funext name
    by_cases hname : name = index.name <;>
      simp [withIndexes, withoutIndexes, assignAll, Index.entry, Function.update, hname]

theorem withIndexes_of_eq {index : Index}
    (h : c.indexes index.name = some (index.table, index.columns)) :
    c.withIndexes [index] = c := by
  apply Catalogue.ext
  · rfl
  · funext name
    by_cases hname : name = index.name
    · simp [withIndexes, assignAll, Index.entry, hname, h]
    · simp [withIndexes, assignAll, Index.entry, hname]

/-- The changes of one index put it into the catalogue, whether it was there with other columns, was
there as it is, or was not there. -/
theorem replay_indexChanges {old : List Index} {index : Index} (hfits : c.Fits index)
    (htable : ∀ previous ∈ old, previous.name = index.name → previous.table = index.table)
    (hthere : ∀ previous ∈ old, previous.name = index.name →
      c.indexes previous.name = some (previous.table, previous.columns))
    (hfree : index.name ∉ old.map Index.name → c.indexes index.name = none) :
    c.replay (indexChanges old index) = some (c.withIndexes [index]) := by
  unfold indexChanges
  cases hprevious : withName? Index.name old index.name with
  | none => simp [replay, step_createIndex hfits (hfree (withName?_eq_none_iff.mp hprevious))]
  | some previous =>
      have hmem := List.mem_of_find?_eq_some hprevious
      have hname : previous.name = index.name := by simpa using List.find?_some hprevious
      have hentry := hthere previous hmem hname
      -- An index that stays as it is brings no change; another one is dropped and created anew.
      by_cases hcolumns : previous.columns = index.columns
      · rw [hname, htable previous hmem hname, hcolumns] at hentry
        simp [hcolumns, replay, withIndexes_of_eq hentry]
      · have hcreate : (c.withoutIndexes [index.name]).step (.createIndex index) =
            some ((c.withoutIndexes [index.name]).withIndexes [index]) :=
          step_createIndex hfits (by simp [withoutIndexes])
        simp [hcolumns, replay, step_dropIndex hentry, hname, hcreate, withIndexes_withoutIndexes]

theorem replay_flatMap_indexChanges {old new : List Index} (hnew : (new.map Index.name).Nodup)
    (hfits : ∀ index ∈ new, c.Fits index)
    (htable : ∀ index ∈ new, ∀ previous ∈ old, previous.table = index.table)
    (hthere : ∀ index ∈ new, ∀ previous ∈ old, previous.name = index.name →
      c.indexes previous.name = some (previous.table, previous.columns))
    (hfree : ∀ index ∈ new, index.name ∉ old.map Index.name → c.indexes index.name = none) :
    c.replay (new.flatMap (indexChanges old)) = some (c.withIndexes new) := by
  induction new generalizing c with
  | nil => rfl
  | cons index rest ih =>
      obtain ⟨hhead, hrest⟩ := List.nodup_cons.mp hnew
      have hne : ∀ other ∈ rest, other.name ≠ index.name := fun other h heq =>
        hhead (heq ▸ List.mem_map_of_mem h)
      have hindex := replay_indexChanges (hfits index List.mem_cons_self)
        (fun previous h _ => htable index List.mem_cons_self previous h)
        (hthere index List.mem_cons_self) (hfree index List.mem_cons_self)
      rw [List.flatMap_cons, replay_append_of_eq hindex, withIndexes_cons c index rest]
      -- The index that was put has none of the other names, so what is assumed of them still holds.
      refine ih hrest (fun other h => hfits other (List.mem_cons_of_mem _ h))
        (fun other h => htable other (List.mem_cons_of_mem _ h)) ?_ ?_
      · intro other h previous hprevious heq
        rw [withIndexes_singleton_of_ne (heq ▸ hne other h)]
        exact hthere other (List.mem_cons_of_mem _ h) previous hprevious heq
      · intro other h hold
        rw [withIndexes_singleton_of_ne (hne other h)]
        exact hfree other (List.mem_cons_of_mem _ h) hold

/-- The changes from some indexes to others put the new ones into the catalogue and remove those old
ones whose names are not among the new. -/
theorem replay_indexDifference {old new : List Index} (hold : (old.map Index.name).Nodup)
    (hnew : (new.map Index.name).Nodup) (hfits : ∀ index ∈ new, c.Fits index)
    (htable : ∀ index ∈ new, ∀ previous ∈ old, previous.table = index.table)
    (hthere : ∀ previous ∈ old,
      c.indexes previous.name = some (previous.table, previous.columns))
    (hfree : ∀ index ∈ new, index.name ∉ old.map Index.name → c.indexes index.name = none) :
    c.replay (indexDifference old new) = some ((c.withIndexes new).withoutIndexes
      ((old.filter fun i => (withName? Index.name new i.name).isNone).map Index.name)) := by
  unfold indexDifference
  rw [lastByName_of_nodup hold, lastByName_of_nodup hnew]
  have hput := replay_flatMap_indexChanges hnew hfits htable
    (fun _ _ previous h _ => hthere previous h) hfree
  rw [replay_append_of_eq hput]
  apply replay_dropIndexes
  · exact hold.sublist (List.filter_sublist.map _)
  · intro index h
    obtain ⟨hmem, hgone⟩ := List.mem_filter.mp h
    rw [Option.isNone_iff_eq_none, withName?_eq_none_iff] at hgone
    rw [withIndexes_of_notMem hgone, hthere index hmem]
    simp

end Indexes

end Catalogue

end SchemaMigration
