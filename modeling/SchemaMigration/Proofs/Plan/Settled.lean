import SchemaMigration.Proofs.Plan.Replay

/-! # Settled models

The changes of one model touch its table and the names of its indexes and nothing else. They settle
the model: its table and its indexes become what the target has. Models are settled one after the
other, and none of them disturbs another.
-/

namespace SchemaMigration

open Sql (Column Index Table)

namespace Document

variable {old new : Document} {previous m : Model}

/-- The names of the indexes that a kept model has no more. -/
def goneIndexes (old new : Document) (m : Model) : List String :=
  match old.model? m.name.name with
  | some previous => ((old.indexes previous).filter fun i =>
      (withName? Index.name (new.indexes m) i.name).isNone).map Index.name
  | none => []

/-- A catalogue in which a model of the new document has been settled. -/
def settled (old new : Document) (c : Catalogue) (m : Model) : Catalogue :=
  ((c.withTable m.tableName (new.columnNames m)).withIndexes
    (old.addedUniqueIndexes new m ++ new.indexes m)).withoutIndexes (old.goneIndexes new m)

/-- Two catalogues have the same table and the same indexes for a model. -/
structure AgreesOn (old new : Document) (m : Model) (c d : Catalogue) : Prop where
  table : c.tables m.tableName = d.tables m.tableName
  indexes : ∀ name, old.Uses new m name → c.indexes name = d.indexes name

/-- Two catalogues have the same tables and the same indexes but for those of a model. -/
structure AgreesOutside (old new : Document) (m : Model) (c d : Catalogue) : Prop where
  tables : ∀ table, table ≠ m.tableName → c.tables table = d.tables table
  indexes : ∀ name, ¬ old.Uses new m name → c.indexes name = d.indexes name

theorem mem_goneIndexes {name : String} :
    name ∈ old.goneIndexes new m ↔ ∃ previous, old.model? m.name.name = some previous ∧
      name ∈ (old.indexes previous).map Index.name ∧ name ∉ (new.indexes m).map Index.name := by
  unfold goneIndexes
  cases old.model? m.name.name with
  | none => simp
  | some previous =>
      simp only [List.mem_map, List.mem_filter, Option.isNone_iff_eq_none, withName?_eq_none_iff,
        Option.some.injEq, exists_eq_left']
      constructor
      · rintro ⟨index, ⟨hindex, hgone⟩, rfl⟩
        exact ⟨⟨index, hindex, rfl⟩, hgone⟩
      · rintro ⟨⟨index, hindex, rfl⟩, hgone⟩
        exact ⟨index, ⟨hindex, hgone⟩, rfl⟩

/-! ## What settling a model does -/

theorem uses_of_goneIndexes {name : String} (h : name ∈ old.goneIndexes new m) :
    old.Uses new m name := by
  obtain ⟨previous, hprevious, hname, _⟩ := mem_goneIndexes.mp h
  obtain ⟨index, hindex, rfl⟩ := List.mem_map.mp hname
  exact (uses_of_index_old (mem_of_model?_eq_some hprevious) hindex).congr
    (name_of_model?_eq_some hprevious)

theorem uses_of_newIndexes (hm : m ∈ new.models) {name : String}
    (h : name ∈ (old.addedUniqueIndexes new m ++ new.indexes m).map Index.name) :
    old.Uses new m name := by
  obtain ⟨index, hindex, rfl⟩ := List.mem_map.mp h
  refine uses_of_index_new hm ?_
  rcases List.mem_append.mp hindex with hindex | hindex
  · exact List.mem_append_right _ ((addedUniqueIndexes_sublist old new m).subset hindex)
  · exact List.mem_append_left _ hindex

theorem settled_agreesOutside (hm : m ∈ new.models) (c : Catalogue) :
    old.AgreesOutside new m (old.settled new c m) c where
  tables := fun table htable => Function.update_of_ne htable _ _
  indexes := by
    intro name hname
    have hgone : name ∉ old.goneIndexes new m := fun h => hname (uses_of_goneIndexes h)
    have hnew : name ∉ (old.addedUniqueIndexes new m ++ new.indexes m).map Index.name :=
      fun h => hname (uses_of_newIndexes hm h)
    simp only [settled, Catalogue.withoutIndexes, if_neg hgone]
    exact Catalogue.withIndexes_of_notMem hnew

namespace NamesApart

variable (h : old.NamesApart new) (hold : old.validate = .ok ()) (hnew : new.validate = .ok ())
include h

theorem newIndexes_nodup (hm : m ∈ new.models) :
    ((old.addedUniqueIndexes new m ++ new.indexes m).map Index.name).Nodup := by
  rw [List.map_append, List.nodup_append_comm, ← List.map_append]
  have hsub : ((new.indexes m ++ old.addedUniqueIndexes new m).map Index.name).Sublist
      (new.indexNames.map Prod.fst) := by
    simp only [indexNames, List.map_flatMap, List.map_map]
    rw [List.flatMap_def]
    refine List.Sublist.trans ?_ (List.sublist_flatten_of_mem (List.mem_map_of_mem hm))
    exact ((List.Sublist.refl _).append (addedUniqueIndexes_sublist old new m)).map _
  exact h.indexes.once_new.sublist hsub

/-- The unique indexes that a plan creates have other names than the indexes of the documents. -/
theorem added_notMem_indexes {d : Document} (hd : d ∈ [old, new]) (hm : m ∈ new.models) {q : Model}
    (hq : q ∈ d.models) {index : Index} (hindex : index ∈ old.addedUniqueIndexes new m) :
    index.name ∉ (d.indexes q).map Index.name := by
  intro hmem
  obtain ⟨other, hother, heq⟩ := List.mem_map.mp hmem
  have hstandalone : other ∈ d.standaloneIndexes := List.mem_flatMap.mpr ⟨q, hq, hother⟩
  refine h.unique index (List.mem_append_right _ (List.mem_flatMap.mpr ⟨m, hm,
    (addedUniqueIndexes_sublist old new m).subset hindex⟩)) other ?_ heq.symm
  simp only [List.mem_cons, List.not_mem_nil, or_false] at hd
  rcases hd with rfl | rfl
  · exact List.mem_append_left _ hstandalone
  · exact List.mem_append_right _ hstandalone

/-- An index that a kept model has no more is not among those the plan creates for it. -/
theorem notMem_goneIndexes (hm : m ∈ new.models) {index : Index}
    (hindex : index ∈ old.addedUniqueIndexes new m ++ new.indexes m) :
    index.name ∉ old.goneIndexes new m := by
  intro hgone
  obtain ⟨previous, hprevious, hname, hkept⟩ := mem_goneIndexes.mp hgone
  rcases List.mem_append.mp hindex with hindex | hindex
  · exact h.added_notMem_indexes (by simp) hm (mem_of_model?_eq_some hprevious) hindex hname
  · exact hkept (List.mem_map_of_mem hindex)

include hnew in
/-- The target has an index of a name that a model uses only if it is one of the model. -/
theorem target_index_eq_none_of_uses (hm : m ∈ new.models) {name : String}
    (huses : old.Uses new m name)
    (hother : name ∉ (old.addedUniqueIndexes new m ++ new.indexes m).map Index.name) :
    (old.target new).indexes name = none := by
  refine target_index_eq_none fun n hn index hindex heq => hother ?_
  have hmem : index.name ∈ (old.addedUniqueIndexes new n ++ new.indexes n).map Index.name :=
    List.mem_map_of_mem (List.mem_append.mpr (List.mem_append.mp hindex).symm)
  have hnuses : old.Uses new n name := heq ▸ uses_of_newIndexes hn hmem
  obtain rfl : n = m := model_eq_of_name_eq hnew hn hm (h.owner_of_uses hnuses huses)
  exact heq ▸ hmem

include hold in
/-- The old document has an index of a name that a model uses only if it is one of the model. -/
theorem catalogue_index_eq_none_of_uses {name : String} (huses : old.Uses new m name)
    (hother : ∀ previous, old.model? m.name.name = some previous →
      name ∉ (old.indexes previous).map Index.name) : old.catalogue.indexes name = none := by
  refine catalogue_index_eq_none fun q hq index hindex heq => ?_
  have hquses : old.Uses new q name := heq ▸ uses_of_index_old hq hindex
  have hprevious := model?_eq_some_of_mem hold hq
  rw [h.owner_of_uses hquses huses] at hprevious
  exact hother q hprevious (heq ▸ List.mem_map_of_mem hindex)

include hold hnew in
/-- A settled model has the table and the indexes of the target. -/
theorem settled_agreesOn (hm : m ∈ new.models) {c : Catalogue}
    (hc : old.AgreesOn new m c old.catalogue) :
    old.AgreesOn new m (old.settled new c m) (old.target new) where
  table := by
    have htarget : (old.target new).tables m.tableName = some (new.columnNames m) :=
      h.catalogue_table_of_mem (by simp) hm
    rw [htarget]
    exact Function.update_self _ _ _
  indexes := by
    intro name huses
    -- A name the model uses is created, dropped, or was never that of an index.
    by_cases hname : name ∈ (old.addedUniqueIndexes new m ++ new.indexes m).map Index.name
    · obtain ⟨index, hindex, rfl⟩ := List.mem_map.mp hname
      rw [h.target_index_of_mem hm (List.mem_append.mpr (List.mem_append.mp hindex).symm)]
      simp only [settled, Catalogue.withoutIndexes, if_neg (h.notMem_goneIndexes hm hindex)]
      exact Catalogue.withIndexes_of_mem (h.newIndexes_nodup hm) hindex
    · rw [h.target_index_eq_none_of_uses hnew hm huses hname]
      by_cases hgone : name ∈ old.goneIndexes new m
      · simp [settled, Catalogue.withoutIndexes, hgone]
      · have hkept : name ∉ (new.indexes m).map Index.name := fun hmem =>
          hname (by rw [List.map_append]; exact List.mem_append_right _ hmem)
        have hnone := h.catalogue_index_eq_none_of_uses hold huses fun previous hprevious hmem =>
          hgone (mem_goneIndexes.mpr ⟨previous, hprevious, hmem, hkept⟩)
        simp only [settled, Catalogue.withoutIndexes, if_neg hgone]
        rw [Catalogue.withIndexes_of_notMem hname]
        exact (hc.indexes name huses).trans hnone

/-! ## The changes of a model settle it -/

/-- An index of a model can be created once the table of the model is laid out. -/
theorem fits_of_table (hm : m ∈ new.models) {c : Catalogue}
    (htable : c.tables m.tableName = some (new.columnNames m)) :
    ∀ index ∈ new.indexes m, c.Fits index := by
  intro index hindex
  refine ⟨new.columnNames m, by rw [index_table hindex, htable], fun column hcolumn => ?_⟩
  exact mem_columnNames_of_index (h.indexed new (by simp) m hm) hindex hcolumn

include hold in
theorem replay_creation (hm : m ∈ new.models) (hfresh : old.model? m.name.name = none)
    {part : List Change} (hpart : new.creation m = .ok part) {c : Catalogue}
    (hc : old.AgreesOn new m c old.catalogue) : c.replay part = some (old.settled new c m) := by
  obtain ⟨table, htable, rfl⟩ := creation_eq_ok_iff.mp hpart
  have hfree : c.tables table.name = none := by
    rw [table_name htable, hc.table]
    refine catalogue_table_eq_none fun q hq heq => ?_
    have hname := h.owner_of_tableName (List.mem_append_left _ hq) (List.mem_append_right _ hm) heq
    exact model?_eq_none_iff.mp hfresh q hq hname
  have hlaidOut : (table.columns.map Column.name).toFinset = new.columnNames m := by
    rw [table_columnNames htable, columnNames]
  rw [Catalogue.replay, Catalogue.step_createTable hfree, Option.bind_some, hlaidOut,
    table_name htable, Catalogue.replay_createIndexes]
  · simp [settled, addedUniqueIndexes, goneIndexes, hfresh, Catalogue.withoutIndexes]
  · have hnodup := h.newIndexes_nodup hm
    rw [List.map_append, List.nodup_append] at hnodup
    exact hnodup.2.1
  · exact h.fits_of_table hm (Function.update_self _ _ _)
  · intro index hindex
    have huses : old.Uses new m index.name :=
      uses_of_index_new hm (List.mem_append_left _ hindex)
    refine (hc.indexes _ huses).trans (h.catalogue_index_eq_none_of_uses hold huses ?_)
    simp [hfresh]

include hold in
/-- The changes of a kept model's fields complete its table and create its unique indexes. -/
theorem replay_keptFields (hnav : old.KeepsNavigation new) (hm : m ∈ new.models)
    (hprevious : old.model? m.name.name = some previous)
    (hkept : ∀ f ∈ previous.fields, f.isRemoved old new m = false) {parts : List (List Change)}
    (hparts : List.Forall₂ (fun f part => new.fieldChanges previous m f = .ok part) m.fields parts)
    {c : Catalogue} (htable : c.tables m.tableName = some (old.columnNames previous))
    (hindexes : ∀ name, old.Uses new m name → c.indexes name = old.catalogue.indexes name) :
    c.replay parts.flatten = some ((c.withTable m.tableName (new.columnNames m)).withIndexes
      (old.addedUniqueIndexes new m)) := by
  have hmem := mem_of_model?_eq_some hprevious
  have hkeeps : old.Keeps new previous m := ⟨hmem, hm, name_of_model?_eq_some hprevious⟩
  have hfields := fieldNames_nodup hold hmem
  -- What the changes of the fields need is known of the old catalogue and of the names.
  have hcolumns := h.columns new (by simp) m hm
  have hadded : old.addedUniqueIndexes new m =
      (new.addedAmong previous m.fields).filterMap m.uniqueIndex? := by
    simp [addedUniqueIndexes, hprevious]
  have hnewNames := h.newIndexes_nodup hm
  rw [List.map_append, List.nodup_append] at hnewNames
  have hfree : ∀ index ∈ old.addedUniqueIndexes new m, c.indexes index.name = none := by
    intro index hindex
    have huses := uses_of_newIndexes hm
      (List.mem_map_of_mem (List.mem_append_left (new.indexes m) hindex))
    refine (hindexes _ huses).trans (h.catalogue_index_eq_none_of_uses hold huses fun q hq => ?_)
    exact h.added_notMem_indexes (by simp) hm (mem_of_model?_eq_some hq) hindex
  rw [hadded] at hfree hnewNames ⊢
  rw [← columnNames_union_added hnav hkeeps hkept hparts hfields]
  exact Catalogue.replay_fieldChanges hparts htable ((List.filter_sublist.map _).nodup hcolumns)
    (fun f hf => added_columnName_notMem hkept hparts hfields hcolumns hf) hnewNames.1 hfree

include hold in
/-- Once its table is complete, the changes of a kept model's indexes create the new ones and drop
those that are gone. -/
theorem replay_keptIndexes (hm : m ∈ new.models)
    (hprevious : old.model? m.name.name = some previous) (hname : previous.tableName = m.tableName)
    {c : Catalogue} (htable : c.tables m.tableName = some (new.columnNames m))
    (hindexes : ∀ name, old.Uses new m name →
      name ∉ (old.addedUniqueIndexes new m).map Index.name →
        c.indexes name = old.catalogue.indexes name) :
    c.replay (indexDifference (old.indexes previous) (new.indexes m)) =
      some ((c.withIndexes (new.indexes m)).withoutIndexes (old.goneIndexes new m)) := by
  have hmem := mem_of_model?_eq_some hprevious
  have hgone : old.goneIndexes new m = ((old.indexes previous).filter fun i =>
      (withName? Index.name (new.indexes m) i.name).isNone).map Index.name := by
    simp [goneIndexes, hprevious]
  rw [hgone]
  have hnewNames := h.newIndexes_nodup hm
  rw [List.map_append, List.nodup_append] at hnewNames
  -- Neither the old nor the new indexes have the name of a unique index created before.
  have hapart : ∀ d ∈ [old, new], ∀ q ∈ d.models, ∀ index ∈ d.indexes q,
      index.name ∉ (old.addedUniqueIndexes new m).map Index.name := by
    intro d hd q hq index hindex hadded
    obtain ⟨other, hother, heq⟩ := List.mem_map.mp hadded
    exact h.added_notMem_indexes hd hm hq hother (heq ▸ List.mem_map_of_mem hindex)
  apply Catalogue.replay_indexDifference
  · have honce : (old.standaloneIndexes.map Index.name).Nodup :=
      h.standaloneNames_nodup (by simp)
    rw [standaloneIndexes, List.map_flatMap, List.flatMap_def] at honce
    exact honce.sublist (List.sublist_flatten_of_mem (List.mem_map.mpr ⟨previous, hmem, rfl⟩))
  · exact hnewNames.2.1
  · exact h.fits_of_table hm htable
  · intro index hindex other hother
    rw [index_table hindex, index_table hother, hname]
  · intro other hother
    have huses : old.Uses new m other.name :=
      (uses_of_index_old hmem hother).congr (name_of_model?_eq_some hprevious)
    rw [hindexes _ huses (hapart old (by simp) previous hmem other hother)]
    exact h.catalogue_index_of_mem (by simp) hmem hother
  · intro index hindex hother
    have huses : old.Uses new m index.name :=
      uses_of_index_new hm (List.mem_append_left _ hindex)
    rw [hindexes _ huses (hapart new (by simp) m hm index hindex)]
    refine h.catalogue_index_eq_none_of_uses hold huses fun q hq => ?_
    rw [hprevious, Option.some.injEq] at hq
    exact hq ▸ hother

include hold in
theorem replay_alteration (hnav : old.KeepsNavigation new) (hm : m ∈ new.models)
    (hprevious : old.model? m.name.name = some previous) {part : List Change}
    (hpart : alteration old new previous m = .ok part) {c : Catalogue}
    (hc : old.AgreesOn new m c old.catalogue) : c.replay part = some (old.settled new c m) := by
  obtain ⟨hsame, hkept, parts, hparts, rfl⟩ := alteration_eq_ok_iff.mp hpart
  have hname : previous.tableName = m.tableName :=
    Model.tableName_eq_of_same (hsame "map" (by simp [tableAttributes]))
      (name_of_model?_eq_some hprevious)
  have htable : c.tables m.tableName = some (old.columnNames previous) := by
    rw [hc.table, ← hname]
    exact h.catalogue_table_of_mem (by simp) (mem_of_model?_eq_some hprevious)
  have hfields := h.replay_keptFields hold hnav hm hprevious hkept hparts htable hc.indexes
  rw [Catalogue.replay_append_of_eq hfields, h.replay_keptIndexes hold hm hprevious hname,
    settled, Catalogue.withIndexes_append]
  · exact Function.update_self _ _ _
  · intro name huses hadded
    exact (Catalogue.withIndexes_of_notMem hadded).trans (hc.indexes name huses)

include hold in
/-- The changes that a model of the new document brings settle it. -/
theorem replay_modelChanges (hnav : old.KeepsNavigation new) (hm : m ∈ new.models)
    {part : List Change}
    (hpart : old.modelChanges new (lastByName (·.name.name) old.models) m = .ok part)
    {c : Catalogue} (hc : old.AgreesOn new m c old.catalogue) :
    c.replay part = some (old.settled new c m) := by
  cases hprevious : old.model? m.name.name with
  | none =>
      rw [modelChanges_of_none hold hprevious] at hpart
      exact h.replay_creation hold hm hprevious hpart hc
  | some previous =>
      rw [modelChanges_of_some hold hprevious] at hpart
      exact h.replay_alteration hold hnav hm hprevious hpart hc

end NamesApart

end Document

end SchemaMigration
