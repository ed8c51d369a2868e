import SchemaMigration.Proofs.Layout.Table
import SchemaMigration.Proofs.Plan.Sameness
import SchemaMigration.Proofs.Schema.Validity

/-! # What a plan is composed of

A plan succeeds exactly when its parts do: one for each model of the new document, and for a model
in both documents one for each of its fields. From this follows where each change of a plan comes
from.
-/

namespace SchemaMigration

open Sql (Column Index Table)

/-! ## Lists by name -/

section ByName

variable {α : Type} {name : α → String}

/-- The known members with one more: in the place of those of its name, or else at the end. -/
def placed (name : α → String) (known : List α) (a : α) : List α :=
  if known.any fun b => name b == name a then known.map fun b => if name b == name a then a else b
  else known ++ [a]

theorem lastByName_eq (as : List α) : lastByName name as = as.foldl (placed name) [] :=
  rfl

theorem placed_of_notMem {known : List α} {a : α} (h : name a ∉ known.map name) :
    placed name known a = known ++ [a] := by
  have hnone : (known.any fun b => name b == name a) = false := by
    rw [List.any_eq_false]
    exact fun b hb heq => h (List.mem_map.mpr ⟨b, hb, beq_iff_eq.mp heq⟩)
  rw [placed, hnone, if_neg Bool.false_ne_true]

theorem mem_of_mem_placed {known : List α} {a b : α} (h : b ∈ placed name known a) :
    b ∈ known ∨ b = a := by
  unfold placed at h
  split at h
  next =>
    obtain ⟨c, hc, rfl⟩ := List.mem_map.mp h
    split
    · exact .inr rfl
    · exact .inl hc
  next => simpa using h

/-- Placing a member adds its name if it is new, and loses none. -/
theorem mem_names_placed {known : List α} {a : α} {n : String} :
    n ∈ (placed name known a).map name ↔ n ∈ known.map name ∨ n = name a := by
  unfold placed
  split
  next hknown =>
    have hsame : (known.map fun b => if name b == name a then a else b).map name =
        known.map name := by
      rw [List.map_map]
      refine List.map_congr_left fun b _ => ?_
      by_cases hb : name b = name a <;> simp [hb]
    simp only [List.any_eq_true, beq_iff_eq] at hknown
    obtain ⟨c, hc, heq⟩ := hknown
    rw [hsame, or_iff_left_of_imp]
    rintro rfl
    exact List.mem_map.mpr ⟨c, hc, heq⟩
  next => simp

/-- When names are distinct, every member stands for itself. -/
theorem lastByName_of_nodup {as : List α} (h : (as.map name).Nodup) : lastByName name as = as := by
  -- The induction is on the members to come, whose names are not among the known ones.
  suffices hfold : ∀ known : List α, ((known ++ as).map name).Nodup →
      as.foldl (placed name) known = known ++ as from hfold [] h
  clear h
  induction as with
  | nil => simp
  | cons a as ih =>
      intro known hnodup
      have hnew : name a ∉ known.map name := by
        simp only [List.map_append, List.map_cons, List.nodup_append, List.mem_cons] at hnodup
        exact fun hmem => hnodup.2.2 _ hmem _ (Or.inl rfl) rfl
      rw [List.foldl_cons, placed_of_notMem hnew, ih _ (by simpa using hnodup), List.append_assoc,
        List.singleton_append]

theorem mem_of_mem_lastByName {as : List α} {a : α} (h : a ∈ lastByName name as) : a ∈ as := by
  suffices hfold : ∀ known : List α, a ∈ as.foldl (placed name) known → a ∈ known ∨ a ∈ as by
    simpa using hfold [] (lastByName_eq as ▸ h)
  clear h
  induction as with
  | nil => simp
  | cons b as ih =>
      intro known h
      rcases ih _ h with hmem | hmem
      · rcases mem_of_mem_placed hmem with hmem | rfl
        · exact .inl hmem
        · exact .inr List.mem_cons_self
      · exact .inr (List.mem_cons_of_mem b hmem)

theorem mem_names_lastByName {as : List α} {n : String} :
    n ∈ (lastByName name as).map name ↔ n ∈ as.map name := by
  suffices hfold : ∀ known : List α,
      n ∈ (as.foldl (placed name) known).map name ↔ n ∈ known.map name ∨ n ∈ as.map name by
    simpa [lastByName_eq] using hfold []
  induction as with
  | nil => simp
  | cons a as ih =>
      intro known
      rw [List.foldl_cons, ih, mem_names_placed, List.map_cons, List.mem_cons, or_assoc]

theorem withName?_eq_none_iff {as : List α} {n : String} :
    withName? name as n = none ↔ n ∉ as.map name := by
  simp [withName?]

end ByName

/-! ## Changes of one model -/

theorem Document.creation_eq_ok_iff {d : Document} {m : Model} {changes : List Change} :
    d.creation m = .ok changes ↔
      ∃ table, d.table m = .ok table ∧
        changes = .createTable m.name.name table :: (d.indexes m).map .createIndex := by
  unfold Document.creation
  simp only [bind_eq_ok_iff, pure_eq_ok_iff]

/-- What a field of a model brings: nothing if it was there and is the same, nothing if it is new
and no column, and otherwise a column and its unique index. -/
theorem Document.fieldChanges_eq_ok_iff {d : Document} {old new : Model} {f : Field}
    {changes : List Change} :
    d.fieldChanges old new f = .ok changes ↔
      (∃ previous, old.field? f.name.name = some previous ∧ previous.same f = true ∧
        changes = []) ∨
      (old.field? f.name.name = none ∧ d.isColumn f = false ∧ changes = []) ∨
      (old.field? f.name.name = none ∧ d.isColumn f = true ∧
        ∃ column, d.addedColumn new f = .ok column ∧
          changes = .addColumn new.tableName column
            :: ((new.uniqueIndex? f).map .createIndex).toList) := by
  unfold Document.fieldChanges
  cases hprevious : old.field? f.name.name with
  | some previous => by_cases hsame : previous.same f = true <;> simp [hsame]
  | none =>
      cases hcolumn : d.isColumn f with
      | false => simp
      | true =>
          -- A column has no foreign key of its own, so the check for keys does not refuse it.
          have hkey : f.hasForeignKey = false := by
            simp only [Document.isColumn, Bool.and_eq_true, Option.isNone_iff_eq_none] at hcolumn
            simp [Field.hasForeignKey, hcolumn.1.2]
          simp only [hkey, Bool.not_true, Bool.or_self, Bool.false_eq_true, if_false,
            bind_eq_ok_iff, pure_eq_ok_iff]
          simp

/-- A model that is kept has the same constraints, loses no column and no foreign key, and brings
the changes of its fields and then those of its indexes. -/
theorem alteration_eq_ok_iff {oldDocument newDocument : Document} {old new : Model}
    {changes : List Change} :
    alteration oldDocument newDocument old new = .ok changes ↔
      (∀ label ∈ tableAttributes, old.sameAttributes new label = true) ∧
      (∀ f ∈ old.fields, f.isRemoved oldDocument newDocument new = false) ∧
      ∃ parts, List.Forall₂ (fun f part => newDocument.fieldChanges old new f = .ok part)
          new.fields parts ∧
        changes = parts.flatten
          ++ indexDifference (oldDocument.indexes old) (newDocument.indexes new) := by
  unfold alteration
  cases hlabel : old.changedAttribute? new with
  | some label =>
      -- An attribute that changed is refused, so neither side holds.
      have hchanged := List.find?_some hlabel
      have hmem := List.mem_of_find?_eq_some hlabel
      simp only [Bool.not_eq_eq_eq_not, Bool.not_true] at hchanged
      constructor
      · simp [throw, throwThe, MonadExceptOf.throw, bind, Except.bind]
      · rintro ⟨hsame, _⟩
        rw [hsame label hmem] at hchanged
        simp at hchanged
  | none =>
      have hsame : ∀ label ∈ tableAttributes, old.sameAttributes new label = true := by
        simpa [Model.changedAttribute?] using hlabel
      cases hremoved : old.fields.find? fun f => f.isRemoved oldDocument newDocument new with
      | some f =>
          -- A removed column is refused as well.
          have hf := List.find?_some hremoved
          have hmem := List.mem_of_find?_eq_some hremoved
          constructor
          · simp [throw, throwThe, MonadExceptOf.throw, bind, Except.bind]
          · rintro ⟨_, hkept, _⟩
            rw [hkept f hmem] at hf
            simp at hf
      | none =>
          have hkept : ∀ f ∈ old.fields, f.isRemoved oldDocument newDocument new = false := by
            simpa using hremoved
          simp only [bind_eq_ok_iff, mapM_eq_ok_iff, pure_eq_ok_iff]
          exact ⟨fun h => ⟨hsame, hkept, h⟩, fun h => h.2.2⟩

/-- The changes of a plan: those of each model of the new document in order, and then the dropped
tables. -/
theorem Document.difference_eq_ok_iff {old new : Document} {changes : List Change} :
    old.difference new = .ok changes ↔
      new.validate = .ok () ∧
        ∃ parts, List.Forall₂
            (fun m part => old.modelChanges new (lastByName (·.name.name) old.models) m = .ok part)
            new.models parts ∧
          changes = parts.flatten
            ++ ((lastByName (·.name.name) old.models).filter fun m => !new.isModel m.name.name).map
              fun m => .dropTable m.name.name m.tableName := by
  unfold Document.difference
  simp only [bind_eq_ok_iff, mapM_eq_ok_iff, pure_eq_ok_iff]
  constructor
  · rintro ⟨_, hvalid, h⟩
    exact ⟨hvalid, h⟩
  · rintro ⟨hvalid, h⟩
    exact ⟨(), hvalid, h⟩

theorem Document.modelChanges_of_none {old new : Document} {m : Model}
    (hold : old.validate = .ok ()) (h : old.model? m.name.name = none) :
    old.modelChanges new (lastByName (·.name.name) old.models) m = new.creation m := by
  rw [lastByName_of_nodup (modelNames_nodup hold), modelChanges]
  rw [show withName? _ old.models m.name.name = none from h]

theorem Document.modelChanges_of_some {old new : Document} {previous m : Model}
    (hold : old.validate = .ok ()) (h : old.model? m.name.name = some previous) :
    old.modelChanges new (lastByName (·.name.name) old.models) m =
      alteration old new previous m := by
  rw [lastByName_of_nodup (modelNames_nodup hold), modelChanges]
  rw [show withName? _ old.models m.name.name = some previous from h]

/-! ## Where changes come from -/

/-- A model of one document that is kept in another: it has the name of one there. -/
def Document.Keeps (old new : Document) (previous m : Model) : Prop :=
  previous ∈ old.models ∧ m ∈ new.models ∧ previous.name.name = m.name.name

/-- A field that comes to a kept model as a column. -/
def Document.AddsColumn (old new : Document) (previous m : Model) (f : Field) : Prop :=
  old.Keeps new previous m ∧ f ∈ m.fields ∧ previous.field? f.name.name = none ∧
    new.isColumn f = true

/-- What brings about a change from one document to another. -/
inductive Document.Brings (old new : Document) : Change → Prop
  | createTable {m : Model} {table : Table} (hm : m ∈ new.models)
      (hnew : m.name.name ∉ old.models.map (·.name.name)) (htable : new.table m = .ok table) :
      Brings old new (.createTable m.name.name table)
  | dropTable {m : Model} (hm : m ∈ old.models) (hgone : new.isModel m.name.name = false) :
      Brings old new (.dropTable m.name.name m.tableName)
  | addColumn {previous m : Model} {f : Field} {column : Column}
      (hadds : old.AddsColumn new previous m f) (hcolumn : new.addedColumn m f = .ok column) :
      Brings old new (.addColumn m.tableName column)
  | uniqueIndex {previous m : Model} {f : Field} {index : Index}
      (hadds : old.AddsColumn new previous m f) (hindex : m.uniqueIndex? f = some index) :
      Brings old new (.createIndex index)
  | createIndex {m : Model} {index : Index} (hm : m ∈ new.models) (hindex : index ∈ new.indexes m) :
      Brings old new (.createIndex index)
  | dropIndex {previous m : Model} {index : Index} (hkeeps : old.Keeps new previous m)
      (hindex : index ∈ old.indexes previous) : Brings old new (.dropIndex index)

theorem Document.Brings.of_addColumn {old new : Document} {table : String} {column : Column}
    (h : old.Brings new (.addColumn table column)) :
    ∃ previous m f, old.AddsColumn new previous m f ∧ new.addedColumn m f = .ok column ∧
      m.tableName = table := by
  generalize hchange : Change.addColumn table column = change at h
  cases h with
  | @addColumn previous m f added hadds hcolumn =>
      obtain ⟨rfl, rfl⟩ := Change.addColumn.inj hchange
      exact ⟨previous, m, f, hadds, hcolumn, rfl⟩
  | _ => simp at hchange

theorem Document.Brings.of_createTable {old new : Document} {model : String} {table : Table}
    (h : old.Brings new (.createTable model table)) :
    ∃ m ∈ new.models, m.name.name ∉ old.models.map (·.name.name) ∧ new.table m = .ok table := by
  generalize hchange : Change.createTable model table = change at h
  cases h with
  | @createTable m created hm hnew htable =>
      obtain ⟨_, rfl⟩ := Change.createTable.inj hchange
      exact ⟨m, hm, hnew, htable⟩
  | _ => simp at hchange

theorem Document.Brings.of_dropTable {old new : Document} {model table : String}
    (h : old.Brings new (.dropTable model table)) :
    ∃ m ∈ old.models, new.isModel m.name.name = false ∧ m.name.name = model ∧
      m.tableName = table := by
  generalize hchange : Change.dropTable model table = change at h
  cases h with
  | @dropTable m hm hgone =>
      obtain ⟨rfl, rfl⟩ := Change.dropTable.inj hchange
      exact ⟨m, hm, hgone, rfl, rfl⟩
  | _ => simp at hchange

/-- The changes between indexes drop old ones and create new ones. -/
theorem mem_indexDifference {old new : List Index} {change : Change}
    (h : change ∈ indexDifference old new) :
    (∃ index ∈ new, change = .createIndex index) ∨ ∃ index ∈ old, change = .dropIndex index := by
  simp only [indexDifference, List.mem_append, List.mem_flatMap, List.mem_map,
    List.mem_filter] at h
  rcases h with ⟨index, hindex, h⟩ | ⟨index, ⟨hindex, _⟩, rfl⟩
  · have hnew := mem_of_mem_lastByName hindex
    unfold indexChanges at h
    split at h
    · exact .inl ⟨index, hnew, by simpa using h⟩
    next previous hprevious =>
      have hold := mem_of_mem_lastByName (List.mem_of_find?_eq_some hprevious)
      split at h
      · simp only [List.mem_cons, List.not_mem_nil, or_false] at h
        rcases h with rfl | rfl
        · exact .inr ⟨previous, hold, rfl⟩
        · exact .inl ⟨index, hnew, rfl⟩
      · simp at h
  · exact .inr ⟨index, mem_of_mem_lastByName hindex, rfl⟩

theorem Document.brings_of_mem_creation {old new : Document} {m : Model} {changes : List Change}
    (hm : m ∈ new.models) (hnew : m.name.name ∉ old.models.map (·.name.name))
    (h : new.creation m = .ok changes) {change : Change} (hchange : change ∈ changes) :
    old.Brings new change := by
  obtain ⟨table, htable, rfl⟩ := creation_eq_ok_iff.mp h
  simp only [List.mem_cons, List.mem_map] at hchange
  rcases hchange with rfl | ⟨index, hindex, rfl⟩
  · exact .createTable hm hnew htable
  · exact .createIndex hm hindex

theorem Document.brings_of_mem_alteration {old new : Document} {previous m : Model}
    {changes : List Change} (hkeeps : old.Keeps new previous m)
    (h : alteration old new previous m = .ok changes) {change : Change}
    (hchange : change ∈ changes) : old.Brings new change := by
  obtain ⟨_, _, parts, hparts, rfl⟩ := alteration_eq_ok_iff.mp h
  rcases List.mem_append.mp hchange with hchange | hchange
  · obtain ⟨part, hpart, hchange⟩ := List.mem_flatten.mp hchange
    obtain ⟨f, hf, hfield⟩ := exists_of_mem_right hparts hpart
    rcases fieldChanges_eq_ok_iff.mp hfield with
      ⟨_, _, _, rfl⟩ | ⟨_, _, rfl⟩ | ⟨hnone, hcolumn, column, hadded, rfl⟩
    · simp at hchange
    · simp at hchange
    · have hadds : old.AddsColumn new previous m f := ⟨hkeeps, hf, hnone, hcolumn⟩
      simp only [List.mem_cons, Option.mem_toList, Option.map_eq_some_iff] at hchange
      rcases hchange with rfl | ⟨index, hindex, rfl⟩
      · exact .addColumn hadds hadded
      · exact .uniqueIndex hadds hindex
  · rcases mem_indexDifference hchange with ⟨index, hindex, rfl⟩ | ⟨index, hindex, rfl⟩
    · exact .createIndex hkeeps.2.1 hindex
    · exact .dropIndex hkeeps hindex

/-- Every change of a plan is brought about by the documents. -/
theorem Document.brings_of_mem_difference {old new : Document} {changes : List Change}
    (h : old.difference new = .ok changes) {change : Change} (hchange : change ∈ changes) :
    old.Brings new change := by
  obtain ⟨_, parts, hparts, rfl⟩ := difference_eq_ok_iff.mp h
  rcases List.mem_append.mp hchange with hchange | hchange
  · obtain ⟨part, hpart, hchange⟩ := List.mem_flatten.mp hchange
    obtain ⟨m, hm, hmodel⟩ := exists_of_mem_right hparts hpart
    unfold modelChanges at hmodel
    split at hmodel
    next hnone =>
      rw [withName?_eq_none_iff, mem_names_lastByName] at hnone
      exact brings_of_mem_creation hm hnone hmodel hchange
    next previous hsome =>
      have hprevious := mem_of_mem_lastByName (List.mem_of_find?_eq_some hsome)
      have hname : previous.name.name = m.name.name := by simpa using List.find?_some hsome
      exact brings_of_mem_alteration ⟨hprevious, hm, hname⟩ hmodel hchange
  · obtain ⟨m, hm, rfl⟩ := List.mem_map.mp hchange
    obtain ⟨hm, hgone⟩ := List.mem_filter.mp hm
    exact .dropTable (mem_of_mem_lastByName hm) (by simpa using hgone)

end SchemaMigration
