import SchemaMigration.Proofs.Plan.Target

/-! # Replaying a plan

A plan is replayed from the catalogue of the old document. The changes of one model touch only the
names that belong to the model and settle them as the target has them, so the models of the new
document can be taken one after the other, and the tables that are dropped in the end are in
nobody's way.

A plan reaches its target exactly when no field that was there before becomes a column. Such a
field, whose type was a model and is none any more, is laid out as a column by the new document but
is not added by the plan.
-/

namespace SchemaMigration

open Sql (Column Index Table)

namespace Catalogue

variable {c : Catalogue}

/-- A new column is added, and then its unique index if it must be unique. -/
theorem replay_addedColumn {m : Model} {f : Field} {column : Column} {columns : Finset String}
    (htable : c.tables m.tableName = some columns) (hname : column.name = f.columnName)
    (hnew : f.columnName ∉ columns)
    (hfree : ∀ i, m.uniqueIndex? f = some i → c.indexes i.name = none) :
    c.replay (.addColumn m.tableName column :: ((m.uniqueIndex? f).map .createIndex).toList) =
      some ((c.withTable m.tableName (insert f.columnName columns)).withIndexes
        (m.uniqueIndex? f).toList) := by
  rw [replay, step_addColumn htable (hname ▸ hnew), Option.bind_some, hname]
  cases hunique : m.uniqueIndex? f with
  | none => rfl
  | some index =>
      have hfits : (c.withTable m.tableName (insert f.columnName columns)).Fits index := by
        obtain ⟨_, rfl⟩ := Model.uniqueIndex?_eq_some_iff.mp hunique
        exact ⟨insert f.columnName columns, by simp [withTable], by simp⟩
      have hcreate := step_createIndex hfits (hfree index hunique)
      simp [replay, hcreate]

/-- The changes of a kept model's fields add the columns of its new fields and their unique
indexes. -/
theorem replay_fieldChanges {d : Document} {previous m : Model} {fields : List Field}
    {parts : List (List Change)} {columns : Finset String}
    (hparts : List.Forall₂ (fun f part => d.fieldChanges previous m f = .ok part) fields parts)
    (htable : c.tables m.tableName = some columns)
    (hnodup : ((d.addedAmong previous fields).map Field.columnName).Nodup)
    (hnew : ∀ f ∈ d.addedAmong previous fields, f.columnName ∉ columns)
    (hunique : (((d.addedAmong previous fields).filterMap m.uniqueIndex?).map Index.name).Nodup)
    (hfree : ∀ i ∈ (d.addedAmong previous fields).filterMap m.uniqueIndex?,
      c.indexes i.name = none) :
    c.replay parts.flatten = some ((c.withTable m.tableName
      (columns ∪ ((d.addedAmong previous fields).map Field.columnName).toFinset)).withIndexes
        ((d.addedAmong previous fields).filterMap m.uniqueIndex?)) := by
  induction hparts generalizing c columns with
  | nil =>
      simp [Document.addedAmong, replay, withIndexes_nil, withTable_of_eq htable]
  | @cons f part fields parts hpart hrest ih =>
      rcases Document.fieldChanges_eq_ok_iff.mp hpart with
        ⟨kept, hkept, _, rfl⟩ | ⟨_, hcolumn, rfl⟩ | ⟨hnone, hcolumn, column, hadded, rfl⟩
      -- The field was there before.
      · have hsame : d.addedAmong previous (f :: fields) = d.addedAmong previous fields := by
          simp only [Document.addedAmong, List.filter_filter]
          exact List.filter_cons_of_neg (by simp [hkept])
        rw [hsame] at hnodup hnew hunique hfree ⊢
        exact ih htable hnodup hnew hunique hfree
      -- The field is new and no column.
      · have hsame : d.addedAmong previous (f :: fields) = d.addedAmong previous fields := by
          simp [Document.addedAmong, hcolumn]
        rw [hsame] at hnodup hnew hunique hfree ⊢
        exact ih htable hnodup hnew hunique hfree
      -- The field is a new column, and its table has all the columns up to it.
      · have hcons : d.addedAmong previous (f :: fields) =
            f :: d.addedAmong previous fields := by
          simp [Document.addedAmong, hcolumn, hnone]
        have hindexes : (d.addedAmong previous (f :: fields)).filterMap m.uniqueIndex? =
            (m.uniqueIndex? f).toList
              ++ (d.addedAmong previous fields).filterMap m.uniqueIndex? := by
          rw [hcons, List.filterMap_cons]
          cases m.uniqueIndex? f <;> rfl
        rw [hindexes] at hunique hfree ⊢
        rw [hcons] at hnodup hnew ⊢
        obtain ⟨hhead, hnodup⟩ := List.nodup_cons.mp hnodup
        rw [List.map_append, List.nodup_append] at hunique
        have hname : column.name = f.columnName :=
          Document.plainColumn_name (Document.addedColumn_eq_ok_iff.mp hadded)
        have hcolumnStep := replay_addedColumn htable hname (hnew f List.mem_cons_self)
          fun i hi => hfree i (List.mem_append_left _ (by simp [hi]))
        rw [List.flatten_cons, replay_append_of_eq hcolumnStep]
        have hnext : ((c.withTable m.tableName (insert f.columnName columns)).withIndexes
            (m.uniqueIndex? f).toList).tables m.tableName =
              some (insert f.columnName columns) := by simp [withIndexes, withTable]
        have hlater := ih hnext hnodup (fun g hg => ?_) hunique.2.1 (fun i hi => ?_)
        · have hcolumns : insert f.columnName columns
                ∪ ((d.addedAmong previous fields).map Field.columnName).toFinset =
              columns ∪ ((f :: d.addedAmong previous fields).map Field.columnName).toFinset := by
            simp
          rw [hlater, withIndexes_append, ← hcolumns, withIndexes_withTable, withTable_withTable]
        · have hne : g.columnName ≠ f.columnName := fun heq =>
            hhead (heq ▸ List.mem_map_of_mem hg)
          simp [hne, hnew g (List.mem_cons_of_mem _ hg)]
        · rw [withIndexes_of_notMem]
          · exact hfree i (List.mem_append_right _ hi)
          · intro hmem
            exact hunique.2.2 _ hmem _ (List.mem_map_of_mem hi) rfl

end Catalogue

namespace Document

variable {old new : Document} {previous m : Model}

/-- No field that a kept model already had becomes a column: one that is a column was one before. -/
def KeepsNavigation (old new : Document) : Prop :=
  ∀ previous ∈ old.models, ∀ m ∈ new.models, previous.name.name = m.name.name →
    ∀ f ∈ m.fields, new.isColumn f = true → (previous.field? f.name.name).all old.isColumn = true

instance (old new : Document) : Decidable (old.KeepsNavigation new) :=
  inferInstanceAs (Decidable (∀ previous ∈ old.models, ∀ m ∈ new.models,
    previous.name.name = m.name.name → ∀ f ∈ m.fields, new.isColumn f = true →
      (previous.field? f.name.name).all old.isColumn = true))

/-! ## Columns of a kept model -/

/-- A field that was there before is the same as it was. -/
theorem same_of_fieldChanges {parts : List (List Change)}
    (hparts : List.Forall₂ (fun f part => new.fieldChanges previous m f = .ok part) m.fields parts)
    {f g : Field} (hf : f ∈ m.fields) (hg : previous.field? f.name.name = some g) :
    g.same f = true := by
  obtain ⟨part, _, hpart⟩ := exists_of_mem_left hparts hf
  rcases fieldChanges_eq_ok_iff.mp hpart with ⟨kept, hkept, hsame, _⟩ | ⟨hnone, _⟩ | ⟨hnone, _⟩
  · rw [hg, Option.some.injEq] at hkept
    exact hkept ▸ hsame
  · simp [hg] at hnone
  · simp [hg] at hnone

/-- A column that was there before is still one, under its name. -/
theorem exists_kept_column {parts : List (List Change)}
    (hkept : ∀ f ∈ previous.fields, f.isRemoved old new m = false)
    (hparts : List.Forall₂ (fun f part => new.fieldChanges previous m f = .ok part) m.fields parts)
    (hnodup : (previous.fields.map fun f => f.name.name).Nodup)
    {g : Field} (hg : g ∈ previous.fields) (hcolumn : old.isColumn g = true) :
    ∃ f ∈ m.fields, new.isColumn f = true ∧ f.columnName = g.columnName ∧
      previous.field? f.name.name = some g := by
  have hremoved := hkept g hg
  unfold Field.isRemoved at hremoved
  split at hremoved
  · simp [hcolumn] at hremoved
  next f hf =>
    have hmem := Model.mem_of_field?_eq_some hf
    have hname := Model.name_of_field?_eq_some hf
    have hprevious : previous.field? f.name.name = some g := by
      rw [hname]
      exact Model.field?_eq_some_of_mem hnodup hg
    have hsame := same_of_fieldChanges hparts hmem hprevious
    refine ⟨f, hmem, ?_, (Field.columnName_eq_of_same hsame hname.symm).symm, hprevious⟩
    simpa [hcolumn] using hremoved

/-- With the added columns a kept table has the columns of the new document. -/
theorem columnNames_union_added {parts : List (List Change)} (hnav : old.KeepsNavigation new)
    (hkeeps : old.Keeps new previous m)
    (hkept : ∀ f ∈ previous.fields, f.isRemoved old new m = false)
    (hparts : List.Forall₂ (fun f part => new.fieldChanges previous m f = .ok part) m.fields parts)
    (hnodup : (previous.fields.map fun f => f.name.name).Nodup) :
    old.columnNames previous ∪ ((new.addedAmong previous m.fields).map Field.columnName).toFinset =
      new.columnNames m := by
  ext name
  simp only [Finset.mem_union, List.mem_toFinset, List.mem_map, mem_columnNames, mem_addedAmong]
  constructor
  · rintro (⟨g, hg, hcolumn, rfl⟩ | ⟨f, ⟨hf, hcolumn, _⟩, rfl⟩)
    · obtain ⟨f, hf, hnew, hname, _⟩ := exists_kept_column hkept hparts hnodup hg hcolumn
      exact ⟨f, hf, hnew, hname⟩
    · exact ⟨f, hf, hcolumn, rfl⟩
  · rintro ⟨f, hf, hcolumn, rfl⟩
    cases hprevious : previous.field? f.name.name with
    | none => exact .inr ⟨f, ⟨hf, hcolumn, hprevious⟩, rfl⟩
    | some g =>
        have hname := Model.name_of_field?_eq_some hprevious
        have hsame := same_of_fieldChanges hparts hf hprevious
        have hwas := hnav previous hkeeps.1 m hkeeps.2.1 hkeeps.2.2 f hf hcolumn
        rw [hprevious, Option.all_some] at hwas
        exact .inl ⟨g, Model.mem_of_field?_eq_some hprevious, hwas,
          Field.columnName_eq_of_same hsame hname⟩

/-- The name of an added column is new to its table. -/
theorem added_columnName_notMem {parts : List (List Change)}
    (hkept : ∀ f ∈ previous.fields, f.isRemoved old new m = false)
    (hparts : List.Forall₂ (fun f part => new.fieldChanges previous m f = .ok part) m.fields parts)
    (hnodup : (previous.fields.map fun f => f.name.name).Nodup)
    (hcolumns : ((new.columnFields m).map Field.columnName).Nodup)
    {f : Field} (hf : f ∈ new.addedAmong previous m.fields) :
    f.columnName ∉ old.columnNames previous := by
  obtain ⟨hmem, hcolumn, hnone⟩ := mem_addedAmong.mp hf
  intro hold
  obtain ⟨g, hg, hgcolumn, hname⟩ := mem_columnNames.mp hold
  obtain ⟨kept, hkmem, hkcolumn, hkname, hksome⟩ :=
    exists_kept_column hkept hparts hnodup hg hgcolumn
  have heq := eq_of_nodup_map hcolumns (mem_columnFields.mpr ⟨hkmem, hkcolumn⟩)
    (mem_columnFields.mpr ⟨hmem, hcolumn⟩) (hkname.trans hname)
  rw [heq, hnone] at hksome
  simp at hksome

end Document

end SchemaMigration
