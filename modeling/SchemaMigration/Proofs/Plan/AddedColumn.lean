import SchemaMigration.Proofs.Plan.Correctness

/-! # Columns that are added

The columns that a plan adds are those of the fields that come to kept models as columns: one for
each such field, in the order of the new document, and no other. A field that was there before
brings none, so a field that was no column and becomes one is forgotten. No other column is.
-/

namespace SchemaMigration

open Sql (Column)

/-- The column that a change adds, with the name of its table. -/
def Change.addition? : Change → Option (String × Column)
  | .addColumn table column => some (table, column)
  | _ => none

namespace Document

variable {old new : Document} {previous m : Model} {f : Field}

/-- The fields that come to a model as columns. To a new model none comes: its columns are there
with its table. -/
def additionsTo (old new : Document) (m : Model) : List Field :=
  match old.model? m.name.name with
  | some previous => new.addedAmong previous m.fields
  | none => []

/-- The fields that come to kept models as columns, each with its model. -/
def additions (old new : Document) : List (Model × Field) :=
  new.models.flatMap fun m => (old.additionsTo new m).map (m, ·)

/-- What is added for a field: its column, to the table of its model. -/
def Adds (d : Document) (field : Model × Field) (addition : String × Column) : Prop :=
  addition.1 = field.1.tableName ∧ d.addedColumn field.1 field.2 = .ok addition.2

theorem addedAmong_append (d : Document) (previous : Model) (fields others : List Field) :
    d.addedAmong previous (fields ++ others) =
      d.addedAmong previous fields ++ d.addedAmong previous others := by
  simp only [addedAmong, List.filter_append]

/-! ## What a part of a plan adds -/

/-- A field adds its column if it is new and a column, and nothing otherwise. -/
theorem adds_of_fieldChanges {changes : List Change}
    (h : new.fieldChanges previous m f = .ok changes) :
    List.Forall₂ new.Adds ((new.addedAmong previous [f]).map (m, ·))
      (changes.filterMap Change.addition?) := by
  rcases fieldChanges_eq_ok_iff.mp h with
    ⟨g, hprevious, _, rfl⟩ | ⟨_, hcolumn, rfl⟩ | ⟨hprevious, hcolumn, column, hadded, rfl⟩
  · simp [addedAmong, List.filter_cons, hprevious]
  · simp [addedAmong, hcolumn]
  · have hamong : new.addedAmong previous [f] = [f] := by
      simp [addedAmong, hcolumn, hprevious]
    have hindex : ((m.uniqueIndex? f).map Change.createIndex).toList.filterMap Change.addition? =
        [] := by
      cases m.uniqueIndex? f <;> rfl
    have hchanges : (Change.addColumn m.tableName column
        :: ((m.uniqueIndex? f).map Change.createIndex).toList).filterMap Change.addition? =
          [(m.tableName, column)] := by
      rw [List.filterMap_cons, hindex]
      rfl
    rw [hamong, hchanges]
    exact .cons ⟨rfl, hadded⟩ .nil

theorem adds_of_fields {fields : List Field} {parts : List (List Change)}
    (h : List.Forall₂ (fun f part => new.fieldChanges previous m f = .ok part) fields parts) :
    List.Forall₂ new.Adds ((new.addedAmong previous fields).map (m, ·))
      (parts.flatten.filterMap Change.addition?) := by
  induction h with
  | nil => exact .nil
  | @cons f part fields parts hpart _ ih =>
      rw [← List.singleton_append, addedAmong_append, List.map_append, List.flatten_cons,
        List.filterMap_append]
      exact List.rel_append (adds_of_fieldChanges hpart) ih

/-- Changes between indexes add no column. -/
theorem filterMap_addition?_indexDifference (indexes others : List Sql.Index) :
    (indexDifference indexes others).filterMap Change.addition? = [] := by
  refine List.filterMap_eq_nil_iff.mpr fun change hchange => ?_
  rcases mem_indexDifference hchange with ⟨_, _, rfl⟩ | ⟨_, _, rfl⟩ <;> rfl

/-- A model adds the columns of the fields that come to it. -/
theorem adds_of_modelChanges (hold : old.validate = .ok ()) {changes : List Change}
    (h : old.modelChanges new (lastByName (·.name.name) old.models) m = .ok changes) :
    List.Forall₂ new.Adds ((old.additionsTo new m).map (m, ·))
      (changes.filterMap Change.addition?) := by
  unfold additionsTo
  cases hprevious : old.model? m.name.name with
  | none =>
      rw [modelChanges_of_none hold hprevious] at h
      obtain ⟨table, _, rfl⟩ := creation_eq_ok_iff.mp h
      have hnone : (Change.createTable m.name.name table
          :: (new.indexes m).map .createIndex).filterMap Change.addition? = [] := by
        simp [Change.addition?]
      rw [hnone]
      exact .nil
  | some previous =>
      rw [modelChanges_of_some hold hprevious] at h
      obtain ⟨_, _, parts, hparts, rfl⟩ := alteration_eq_ok_iff.mp h
      rw [List.filterMap_append, filterMap_addition?_indexDifference, List.append_nil]
      exact adds_of_fields hparts

theorem adds_of_models (hold : old.validate = .ok ()) {models : List Model}
    {parts : List (List Change)}
    (h : List.Forall₂
      (fun m part => old.modelChanges new (lastByName (·.name.name) old.models) m = .ok part)
      models parts) :
    List.Forall₂ new.Adds (models.flatMap fun m => (old.additionsTo new m).map (m, ·))
      (parts.flatten.filterMap Change.addition?) := by
  induction h with
  | nil => exact .nil
  | cons hpart _ ih =>
      rw [List.flatMap_cons, List.flatten_cons, List.filterMap_append]
      exact List.rel_append (adds_of_modelChanges hold hpart) ih

/-! ## What a plan adds -/

theorem mem_additionsTo (hold : old.validate = .ok ()) (hkeeps : old.Keeps new previous m) :
    f ∈ old.additionsTo new m ↔
      f ∈ m.fields ∧ new.isColumn f = true ∧ previous.field? f.name.name = none := by
  have hprevious : old.model? m.name.name = some previous :=
    hkeeps.2.2 ▸ model?_eq_some_of_mem hold hkeeps.1
  rw [additionsTo, hprevious, mem_addedAmong]

theorem mem_additions : (m, f) ∈ old.additions new ↔ m ∈ new.models ∧ f ∈ old.additionsTo new m := by
  simp [additions]

/-- Every field that comes to a kept model comes once. -/
theorem additions_nodup (hnew : new.validate = .ok ()) : (old.additions new).Nodup := by
  refine List.nodup_flatMap.mpr ⟨fun m hm => ?_, ?_⟩
  · refine List.Nodup.map (Prod.mk_right_injective m) ?_
    unfold additionsTo
    split
    · exact (List.Nodup.of_map _ (fieldNames_nodup hnew hm)).sublist
        (List.filter_sublist.trans List.filter_sublist)
    · exact List.nodup_nil
  · refine (List.Nodup.of_map _ (modelNames_nodup hnew)).imp fun hne => ?_
    simp only [Function.onFun, List.disjoint_left, List.mem_map]
    rintro _ ⟨f, _, rfl⟩ ⟨g, _, heq⟩
    exact hne (Prod.mk.inj heq).1.symm

/-- The columns that a plan adds are, in order and one for each, those of the fields that come to
kept models as columns. A column of a kept model was one before or is added, unless its field was
there before and was no column: then it is forgotten. -/
theorem addedColumns_of_difference (hold : old.validate = .ok ()) {changes : List Change}
    (hchanges : old.difference new = .ok changes) :
    List.Forall₂ new.Adds (old.additions new) (changes.filterMap Change.addition?) ∧
      (old.additions new).Nodup ∧
      ∀ previous m, old.Keeps new previous m → ∀ f ∈ new.columnFields m,
        ((∃ g, previous.field? f.name.name = some g ∧ old.isColumn g = true) ∨
            (m, f) ∈ old.additions new ↔
          (previous.field? f.name.name).all old.isColumn = true) := by
  obtain ⟨hnew, parts, hparts, rfl⟩ := difference_eq_ok_iff.mp hchanges
  refine ⟨?_, additions_nodup hnew, ?_⟩
  · have hdropped (models : List Model) : (models.map fun m =>
        Change.dropTable m.name.name m.tableName).filterMap Change.addition? = [] := by
      simp [Change.addition?]
    rw [List.filterMap_append, hdropped, List.append_nil]
    exact adds_of_models hold hparts
  · intro previous m hkeeps f hf
    obtain ⟨hf, hcolumn⟩ := mem_columnFields.mp hf
    rw [mem_additions, mem_additionsTo hold hkeeps]
    cases hprevious : previous.field? f.name.name with
    | none => simp [hkeeps.2.1, hf, hcolumn]
    | some g => simp

/-- When posts become an enum, the field of a user that led to posts becomes a column and is
forgotten. The field that is new is added. -/
theorem addedColumns_of_users :
    let old := usersOfPosts postModel []
    let new := usersOfPosts postEnum [mailField]
    (∃ changes, old.difference new = .ok changes ∧
      (changes.filterMap Change.addition?).map (fun a => (a.1, a.2.name)) = [("user", "mail")]) ∧
    ∃ previous m f, old.Keeps new previous m ∧ f ∈ new.columnFields m ∧ f.columnName = "p" ∧
      ¬ ((∃ g, previous.field? f.name.name = some g ∧ old.isColumn g = true) ∨
        (m, f) ∈ old.additions new) := by
  intro old new
  have hvalid : old.validate = .ok () := rfl
  have hplan : ∃ changes, old.difference new = .ok changes ∧
      (changes.filterMap Change.addition?).map (fun a => (a.1, a.2.name)) = [("user", "mail")] :=
    ⟨_, rfl, by decide⟩
  refine ⟨hplan, old.models[1], new.models[0], bareField "p" "Post" [], ?_, ?_, rfl, ?_⟩
  · exact ⟨List.getElem_mem _, List.getElem_mem _, rfl⟩
  · decide
  · obtain ⟨changes, hchanges, _⟩ := hplan
    have hforgotten := (addedColumns_of_difference hvalid hchanges).2.2 old.models[1] new.models[0]
      ⟨List.getElem_mem _, List.getElem_mem _, rfl⟩ (bareField "p" "Post" []) (by decide)
    exact mt hforgotten.mp (by decide)

end Document

end SchemaMigration
