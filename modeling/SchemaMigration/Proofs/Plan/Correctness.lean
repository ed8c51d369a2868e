import SchemaMigration.Proofs.Plan.Settled
import SchemaMigration.Proofs.Schema.Bare

/-! # Plans reach their target

From the catalogue of the old document a plan is never refused and leads to its target, exactly when
no field that a kept model already had becomes a column. The models of the new document are settled
one after the other, and then the tables without a model are dropped. Conversely a column of the
catalogue that is reached was there before, was added, or came with its table, so a column that
nothing adds is missed.
-/

namespace SchemaMigration

open Sql (Column Index Table)

namespace Document

variable {old new : Document} {previous m : Model}

/-! ## All models are settled -/

theorem AgreesOn.of_agreesOutside (h : old.NamesApart new) (hnew : new.validate = .ok ())
    {n : Model} (hm : m ∈ new.models) (hn : n ∈ new.models) (hne : n ≠ m) {c d e : Catalogue}
    (hc : old.AgreesOn new n c e) (hd : old.AgreesOutside new m d c) : old.AgreesOn new n d e where
  table := by
    refine (hd.tables _ fun heq => hne ?_).trans hc.table
    exact model_eq_of_name_eq hnew hn hm (h.owner_of_tableName (List.mem_append_right _ hn)
      (List.mem_append_right _ hm) heq)
  indexes := by
    intro name huses
    refine (hd.indexes name fun hother => hne ?_).trans (hc.indexes name huses)
    exact model_eq_of_name_eq hnew hn hm (h.owner_of_uses huses hother)

/-- A catalogue in which some models of the new document are settled: they have what the target has,
and whatever belongs to none of them is as it was. -/
structure Reached (old new : Document) (models : List Model) (c : Catalogue) : Prop where
  done : ∀ m ∈ models, old.AgreesOn new m c (old.target new)
  tables : ∀ table, table ∉ models.map Model.tableName →
    c.tables table = old.catalogue.tables table
  indexes : ∀ name, (∀ m ∈ models, ¬ old.Uses new m name) →
    c.indexes name = old.catalogue.indexes name

/-- A model that is still to be settled is as it was. -/
theorem Reached.agreesOn (h : old.NamesApart new) (hnew : new.validate = .ok ())
    {models : List Model} {c : Catalogue} (hc : old.Reached new models c)
    (hmodels : ∀ n ∈ models, n ∈ new.models) (hm : m ∈ new.models) (hrest : m ∉ models) :
    old.AgreesOn new m c old.catalogue where
  table := by
    refine hc.tables _ fun hmem => hrest ?_
    obtain ⟨n, hn, heq⟩ := List.mem_map.mp hmem
    have hname := h.owner_of_tableName (List.mem_append_right _ (hmodels n hn))
      (List.mem_append_right _ hm) heq
    exact model_eq_of_name_eq hnew (hmodels n hn) hm hname ▸ hn
  indexes := by
    intro name huses
    refine hc.indexes name fun n hn hother => hrest ?_
    exact model_eq_of_name_eq hnew (hmodels n hn) hm (h.owner_of_uses hother huses) ▸ hn

/-- Settling one more model keeps those settled before. -/
theorem Reached.settled (h : old.NamesApart new) (hold : old.validate = .ok ())
    (hnew : new.validate = .ok ()) {models : List Model} {c : Catalogue}
    (hc : old.Reached new models c) (hmodels : ∀ n ∈ models, n ∈ new.models)
    (hm : m ∈ new.models) (hrest : m ∉ models) :
    old.Reached new (models ++ [m]) (old.settled new c m) := by
  have hbefore := hc.agreesOn h hnew hmodels hm hrest
  have houtside : old.AgreesOutside new m (old.settled new c m) c := settled_agreesOutside hm c
  constructor
  · intro n hn
    rcases List.mem_append.mp hn with hn | hn
    · have hne : n ≠ m := fun heq => hrest (heq ▸ hn)
      exact (hc.done n hn).of_agreesOutside h hnew hm (hmodels n hn) hne houtside
    · rw [List.mem_singleton.mp hn]
      exact h.settled_agreesOn hold hnew hm hbefore
  · intro table htable
    simp only [List.map_append, List.map_cons, List.map_nil, List.mem_append, List.mem_singleton,
      not_or] at htable
    exact (houtside.tables table htable.2).trans (hc.tables table htable.1)
  · intro name huses
    refine (houtside.indexes name (huses m (by simp))).trans (hc.indexes name fun n hn => ?_)
    exact huses n (List.mem_append_left _ hn)

/-- The changes of all models lead to a catalogue in which they are settled. -/
theorem NamesApart.exists_reached (h : old.NamesApart new) (hold : old.validate = .ok ())
    (hnew : new.validate = .ok ()) (hnav : old.KeepsNavigation new) {parts : List (List Change)}
    (hparts : List.Forall₂
      (fun m part => old.modelChanges new (lastByName (·.name.name) old.models) m = .ok part)
      new.models parts) :
    ∃ c, old.catalogue.replay parts.flatten = some c ∧ old.Reached new new.models c := by
  -- The induction is on the models to come; those before them are settled already.
  suffices hrun : ∀ done todo parts, done ++ todo = new.models → ∀ c, old.Reached new done c →
      List.Forall₂ (fun m part =>
        old.modelChanges new (lastByName (·.name.name) old.models) m = .ok part) todo parts →
      ∃ c', c.replay parts.flatten = some c' ∧ old.Reached new new.models c' by
    refine hrun [] new.models parts rfl old.catalogue ?_ hparts
    exact ⟨by simp, fun _ _ => rfl, fun _ _ => rfl⟩
  clear hparts
  intro done todo
  induction todo generalizing done with
  | nil =>
      intro parts hsplit c hc hparts
      rw [List.forall₂_nil_left_iff.mp hparts]
      rw [List.append_nil] at hsplit
      exact ⟨c, rfl, hsplit ▸ hc⟩
  | cons m todo ih =>
      intro parts hsplit c hc hparts
      obtain ⟨part, rest, hpart, hrest, rfl⟩ := List.forall₂_cons_left_iff.mp hparts
      have hmodels : ∀ n ∈ done, n ∈ new.models := fun n hn =>
        hsplit ▸ List.mem_append_left _ hn
      have hm : m ∈ new.models := hsplit ▸ List.mem_append_right _ List.mem_cons_self
      have hfresh : m ∉ done := by
        have hnodup := (modelNames_nodup hnew).of_map
        rw [← hsplit, List.nodup_append] at hnodup
        exact fun hmem => hnodup.2.2 m hmem m List.mem_cons_self rfl
      have hstep := h.replay_modelChanges hold hnav hm hpart (hc.agreesOn h hnew hmodels hm hfresh)
      rw [List.flatten_cons, Catalogue.replay_append_of_eq hstep]
      exact ih (done ++ [m]) rest (by simp [hsplit]) _
        (hc.settled h hold hnew hmodels hm hfresh) hrest

/-! ## Tables without a model are dropped -/

/-- A plan that succeeds alters every model that is kept. -/
theorem exists_alteration (hold : old.validate = .ok ()) {parts : List (List Change)}
    (hparts : List.Forall₂
      (fun m part => old.modelChanges new (lastByName (·.name.name) old.models) m = .ok part)
      new.models parts) (hkeeps : old.Keeps new previous m) :
    ∃ part, alteration old new previous m = .ok part := by
  obtain ⟨hprevious, hm, hname⟩ := hkeeps
  obtain ⟨part, _, hpart⟩ := exists_of_mem_left hparts hm
  have hmodel : old.model? m.name.name = some previous :=
    hname ▸ model?_eq_some_of_mem hold hprevious
  exact ⟨part, modelChanges_of_some hold hmodel ▸ hpart⟩

theorem tableName_of_alteration (hname : previous.name.name = m.name.name) {part : List Change}
    (h : alteration old new previous m = .ok part) : previous.tableName = m.tableName := by
  obtain ⟨hsame, _⟩ := alteration_eq_ok_iff.mp h
  exact Model.tableName_eq_of_same (hsame "map" (by simp [tableAttributes])) hname

/-- The models that are dropped. -/
def droppedModels (old new : Document) : List Model :=
  old.models.filter fun m => !new.isModel m.name.name

theorem mem_droppedModels :
    m ∈ old.droppedModels new ↔ m ∈ old.models ∧ ∀ n ∈ new.models, n.name.name ≠ m.name.name := by
  simp only [droppedModels, List.mem_filter, Bool.not_eq_eq_eq_not, Bool.not_true,
    Bool.eq_false_iff, ne_eq, isModel_iff, not_exists, not_and]

/-- A dropped table is none of the new document. -/
theorem NamesApart.ne_droppedTable (h : old.NamesApart new) (hm : m ∈ new.models) :
    m.tableName ∉ (old.droppedModels new).map Model.tableName := by
  intro hmem
  obtain ⟨q, hq, heq⟩ := List.mem_map.mp hmem
  obtain ⟨hqold, hgone⟩ := mem_droppedModels.mp hq
  exact hgone m hm
    (h.owner_of_tableName (List.mem_append_right _ hm) (List.mem_append_left _ hqold) heq.symm)

section Drop

variable {c : Catalogue} (h : old.NamesApart new) (hc : old.Reached new new.models c)
include h hc

theorem NamesApart.replay_dropped :
    c.replay ((old.droppedModels new).map fun m => .dropTable m.name.name m.tableName) =
      some (c.withoutTables ((old.droppedModels new).map Model.tableName)) := by
  apply Catalogue.replay_dropTables
  · have honce := h.tables.once_old
    rw [tableNames, List.map_map] at honce
    exact honce.sublist (List.filter_sublist.map _)
  · intro q hq
    have hqold := (mem_droppedModels.mp hq).1
    have hother : q.tableName ∉ new.models.map Model.tableName := by
      intro hmem
      obtain ⟨m, hm, heq⟩ := List.mem_map.mp hmem
      exact h.ne_droppedTable hm (heq ▸ List.mem_map_of_mem hq)
    rw [hc.tables _ hother, h.catalogue_table_of_mem (by simp) hqold]
    simp

/-- Once all models are settled, what is left over goes with the dropped tables. -/
theorem NamesApart.withoutTables_dropped
    (hkept : ∀ previous m, old.Keeps new previous m → previous.tableName = m.tableName) :
    c.withoutTables ((old.droppedModels new).map Model.tableName) = old.target new := by
  -- An old model is dropped unless it is kept.
  have hcases : ∀ q ∈ old.models, (∃ m, old.Keeps new q m) ∨ q ∈ old.droppedModels new := by
    intro q hq
    by_cases hmodel : ∃ m ∈ new.models, m.name.name = q.name.name
    · obtain ⟨m, hm, heq⟩ := hmodel
      exact .inl ⟨m, hq, hm, heq.symm⟩
    · push Not at hmodel
      exact .inr (mem_droppedModels.mpr ⟨hq, hmodel⟩)
  apply Catalogue.ext
  · funext table
    by_cases hnew : table ∈ new.models.map Model.tableName
    · obtain ⟨m, hm, rfl⟩ := List.mem_map.mp hnew
      simp only [Catalogue.withoutTables, if_neg (h.ne_droppedTable hm)]
      exact (hc.done m hm).table
    · have htarget : (old.target new).tables table = none :=
        catalogue_table_eq_none fun m hm heq => hnew (heq ▸ List.mem_map_of_mem hm)
      rw [htarget]
      simp only [Catalogue.withoutTables, ite_eq_left_iff]
      intro hdropped
      rw [hc.tables table hnew]
      -- The table of a kept model is one of the new document, and that of another is dropped.
      refine catalogue_table_eq_none fun q hq heq => ?_
      rcases hcases q hq with ⟨m, hkeeps⟩ | hgone
      · exact hnew (heq ▸ hkept q m hkeeps ▸ List.mem_map_of_mem hkeeps.2.1)
      · exact hdropped (heq ▸ List.mem_map_of_mem hgone)
  · funext name
    by_cases huses : ∃ m ∈ new.models, old.Uses new m name
    · obtain ⟨m, hm, huses⟩ := huses
      simp only [Catalogue.withoutTables]
      rw [(hc.done m hm).indexes name huses]
      cases hentry : (old.target new).indexes name with
      | none => rfl
      | some entry =>
          obtain ⟨n, hn, htable⟩ := exists_of_target_index hentry
          have hkeeps := h.ne_droppedTable hn
          rw [htable] at hkeeps
          exact Option.filter_some_pos (decide_eq_true hkeeps)
    · push Not at huses
      have htarget : (old.target new).indexes name = none :=
        target_index_eq_none fun m hm index hindex heq => huses m hm (heq ▸ uses_of_newIndexes hm
          (List.mem_map_of_mem (List.mem_append.mpr (List.mem_append.mp hindex).symm)))
      rw [htarget]
      simp only [Catalogue.withoutTables]
      rw [hc.indexes name huses]
      cases hentry : old.catalogue.indexes name with
      | none => rfl
      | some entry =>
          obtain ⟨q, hq, index, hindex, rfl, htable⟩ := exists_of_catalogue_index hentry
          rcases hcases q hq with ⟨m, hkeeps⟩ | hgone
          · exact absurd ((uses_of_index_old hq hindex).congr hkeeps.2.2) (huses m hkeeps.2.1)
          · have hdropped : entry.1 ∈ (old.droppedModels new).map Model.tableName := by
              rw [← htable, index_table hindex]
              exact List.mem_map_of_mem hgone
            exact Option.filter_some_neg (by simpa using hdropped)

end Drop

end Document

/-! ## Columns that are missed -/

namespace Catalogue

variable {c d : Catalogue} {table : String} {columns : Finset String} {name : String}

/-- A column of the catalogue after a change was there before, was added, or came with its table. -/
theorem column_of_step {change : Change} (h : c.step change = some d)
    (htable : d.tables table = some columns) (hname : name ∈ columns) :
    (∃ before, c.tables table = some before ∧ name ∈ before) ∨
      (∃ column, change = .addColumn table column ∧ column.name = name) ∨
      ∃ model created, change = .createTable model created ∧ created.name = table := by
  cases change with
  | createTable model created =>
      by_cases hcreated : created.name = table
      · exact .inr (.inr ⟨model, created, rfl, hcreated⟩)
      · simp only [step] at h
        split at h
        · obtain rfl := Option.some.inj h
          simp only [withTable, Function.update_of_ne (Ne.symm hcreated)] at htable
          exact .inl ⟨columns, htable, hname⟩
        · simp at h
  | dropTable model dropped =>
      simp only [step] at h
      split at h
      · simp at h
      · obtain rfl := Option.some.inj h
        simp only [withoutTables] at htable
        split at htable
        · simp at htable
        · exact .inl ⟨columns, htable, hname⟩
  | addColumn added column =>
      simp only [step] at h
      split at h
      · simp at h
      next before hbefore =>
        split at h
        · simp at h
        · obtain rfl := Option.some.inj h
          by_cases hadded : added = table
          · subst hadded
            simp only [withTable, Function.update_self, Option.some.injEq] at htable
            rw [← htable, Finset.mem_insert] at hname
            rcases hname with rfl | hname
            · exact .inr (.inl ⟨column, rfl, rfl⟩)
            · exact .inl ⟨before, hbefore, hname⟩
          · simp only [withTable, Function.update_of_ne (Ne.symm hadded)] at htable
            exact .inl ⟨columns, htable, hname⟩
  | createIndex index =>
      simp only [step] at h
      split at h
      · split at h
        · obtain rfl := Option.some.inj h
          exact .inl ⟨columns, htable, hname⟩
        · simp at h
      · simp at h
  | dropIndex index =>
      simp only [step] at h
      split at h
      · simp at h
      · obtain rfl := Option.some.inj h
        exact .inl ⟨columns, htable, hname⟩

/-- A column of the catalogue that changes lead to was there before, was added, or came with its
table. -/
theorem column_of_replay {changes : List Change} (h : c.replay changes = some d)
    (htable : d.tables table = some columns) (hname : name ∈ columns) :
    (∃ before, c.tables table = some before ∧ name ∈ before) ∨
      (∃ column, .addColumn table column ∈ changes ∧ column.name = name) ∨
      ∃ model created, .createTable model created ∈ changes ∧ created.name = table := by
  induction changes generalizing c with
  | nil =>
      obtain rfl := Option.some.inj h
      exact .inl ⟨columns, htable, hname⟩
  | cons change changes ih =>
      obtain ⟨middle, hstep, hrest⟩ := Option.bind_eq_some_iff.mp h
      rcases ih hrest with ⟨before, hbefore, hmem⟩ | ⟨column, hmem, hcolumn⟩ |
        ⟨model, created, hmem, hcreated⟩
      · rcases column_of_step hstep hbefore hmem with hthere | ⟨column, rfl, hcolumn⟩ |
          ⟨model, created, rfl, hcreated⟩
        · exact .inl hthere
        · exact .inr (.inl ⟨column, List.mem_cons_self, hcolumn⟩)
        · exact .inr (.inr ⟨model, created, List.mem_cons_self, hcreated⟩)
      · exact .inr (.inl ⟨column, List.mem_cons_of_mem _ hmem, hcolumn⟩)
      · exact .inr (.inr ⟨model, created, List.mem_cons_of_mem _ hmem, hcreated⟩)

end Catalogue

namespace Document

variable {old new : Document}

/-- A plan that reaches its target misses no column: each one of a kept model that was a field
before was a column. -/
theorem NamesApart.keepsNavigation_of_replay (h : old.NamesApart new)
    (hold : old.validate = .ok ()) {changes : List Change}
    (hchanges : old.difference new = .ok changes)
    (hreplay : old.catalogue.replay changes = some (old.target new)) :
    old.KeepsNavigation new := by
  intro previous hprevious m hm hname f hf hcolumn
  rw [Option.all_eq_true]
  intro g hg
  have hkeeps : old.Keeps new previous m := ⟨hprevious, hm, hname⟩
  obtain ⟨hnew, parts, hparts, _⟩ := difference_eq_ok_iff.mp hchanges
  obtain ⟨part, hpart⟩ := exists_alteration hold hparts hkeeps
  have htableName := tableName_of_alteration hname hpart
  obtain ⟨_, hkept, fieldParts, hfields, _⟩ := alteration_eq_ok_iff.mp hpart
  have hcolumns := h.columns new (by simp) m hm
  -- The columns of a model are told apart by their names.
  have hsame : ∀ k ∈ m.fields, new.isColumn k = true → k.columnName = f.columnName → k = f :=
    fun k hk hkcolumn heq => eq_of_nodup_map hcolumns (mem_columnFields.mpr ⟨hk, hkcolumn⟩)
      (mem_columnFields.mpr ⟨hf, hcolumn⟩) heq
  have howner : ∀ n ∈ new.models, n.tableName = m.tableName → n = m := fun n hn heq =>
    model_eq_of_name_eq hnew hn hm (h.owner_of_tableName (List.mem_append_right _ hn)
      (List.mem_append_right _ hm) heq)
  have htarget : (old.target new).tables m.tableName = some (new.columnNames m) :=
    h.catalogue_table_of_mem (by simp) hm
  have hmem : f.columnName ∈ new.columnNames m := mem_columnNames.mpr ⟨f, hf, hcolumn, rfl⟩
  rcases Catalogue.column_of_replay hreplay htarget hmem with ⟨before, hbefore, hthere⟩ |
    ⟨column, hadd, hcname⟩ | ⟨model, created, hcreate, hcname⟩
  -- The column was there before: as the column of a kept field, which is this one.
  · rw [← htableName, h.catalogue_table_of_mem (by simp) hprevious, Option.some.injEq] at hbefore
    rw [← hbefore] at hthere
    obtain ⟨k, hk, hkcolumn, hkname⟩ := mem_columnNames.mp hthere
    obtain ⟨k', hk', hk'column, hk'name, hk'previous⟩ :=
      exists_kept_column hkept hfields (fieldNames_nodup hold hprevious) hk hkcolumn
    rw [hsame k' hk' hk'column (hk'name.trans hkname), hg, Option.some.injEq] at hk'previous
    exact hk'previous ▸ hkcolumn
  -- The column was added, for a field that was not there: not this one.
  · obtain ⟨q, n, k, ⟨hqkeeps, hk, hnone, hkcolumn⟩, hadded, htable⟩ :=
      (brings_of_mem_difference hchanges hadd).of_addColumn
    obtain rfl := howner n hqkeeps.2.1 htable
    have hkname : k.columnName = f.columnName := by
      rw [← hcname, plainColumn_name (addedColumn_eq_ok_iff.mp hadded)]
    obtain rfl : q = previous :=
      model_eq_of_name_eq hold hqkeeps.1 hprevious (hqkeeps.2.2.trans hname.symm)
    rw [hsame k hk hkcolumn hkname, hg] at hnone
    simp at hnone
  -- The column came with its table, for a model that was not there: not this one.
  · obtain ⟨n, hn, hfresh, htable⟩ := (brings_of_mem_difference hchanges hcreate).of_createTable
    rw [table_name htable] at hcname
    obtain rfl := howner n hn hcname
    exact absurd (List.mem_map.mpr ⟨previous, hprevious, hname⟩) hfresh

/-- A plan that misses no column is never refused and reaches its target. -/
theorem NamesApart.replay_difference (h : old.NamesApart new) (hold : old.validate = .ok ())
    {changes : List Change} (hchanges : old.difference new = .ok changes)
    (hnav : old.KeepsNavigation new) : old.catalogue.replay changes = some (old.target new) := by
  obtain ⟨hnew, parts, hparts, rfl⟩ := difference_eq_ok_iff.mp hchanges
  obtain ⟨c, hreplay, hreached⟩ := h.exists_reached hold hnew hnav hparts
  have hkept : ∀ previous m, old.Keeps new previous m → previous.tableName = m.tableName := by
    intro previous m hkeeps
    obtain ⟨part, hpart⟩ := exists_alteration hold hparts hkeeps
    exact tableName_of_alteration hkeeps.2.2 hpart
  have hdropped := h.replay_dropped hreached
  rw [h.withoutTables_dropped hreached hkept] at hdropped
  rw [Catalogue.replay_append_of_eq hreplay, lastByName_of_nodup (modelNames_nodup hold)]
  exact hdropped

/-- The catalogue of a document is what its plan makes of an empty database. -/
theorem replay_difference_of_empty {changes : List Change}
    (h : Document.NamesApart {} new) (hchanges : Document.difference {} new = .ok changes) :
    Catalogue.empty.replay changes = some new.catalogue := by
  have htarget : Document.target {} new = new.catalogue := by
    have hnone : new.models.flatMap (Document.addedUniqueIndexes {} new) = [] :=
      List.flatMap_eq_nil_iff.mpr fun m _ => rfl
    rw [target, hnone, Catalogue.withIndexes_nil]
  rw [← htarget]
  exact h.replay_difference rfl hchanges fun _ h => absurd h List.not_mem_nil

/-- Replayed from the catalogue of the old document, a plan is never refused and reaches the
catalogue of the new one with a unique index for each added unique column, exactly when no field
that a kept model already had becomes a column. -/
theorem replay_difference_eq_target_iff (hold : old.validate = .ok ())
    (hnames : old.NamesApart new) {changes : List Change}
    (hchanges : old.difference new = .ok changes) :
    old.catalogue.replay changes = some (old.target new) ↔ old.KeepsNavigation new :=
  ⟨hnames.keepsNavigation_of_replay hold hchanges, hnames.replay_difference hold hchanges⟩

/-! ## Users and posts -/

/-- Posts, and users that lead to posts and have further fields. -/
def usersOfPosts (post : Declaration) (fields : List Field) : Document :=
  ⟨[post, bareModel "User" "user" (bareField "p" "Post" [] :: fields)]⟩

def postModel : Declaration :=
  bareModel "Post" "post" []

def postEnum : Declaration :=
  .enum ⟨⟨"Post", ⟨0, 0⟩⟩, [⟨⟨"A", ⟨0, 0⟩⟩, [], ⟨0, 0⟩⟩], [], ⟨0, 0⟩⟩

def mailField : Field :=
  bareField "mail" "String" [bareAttribute "unique" .none]

/-- A new unique field reaches the table. A field that leads to a model is missed when the model
becomes an enum. -/
theorem replay_difference_of_users :
    (∃ changes, (usersOfPosts postModel []).difference (usersOfPosts postModel [mailField]) =
        .ok changes ∧ changes.length = 2 ∧
      (usersOfPosts postModel []).catalogue.replay changes =
        some ((usersOfPosts postModel []).target (usersOfPosts postModel [mailField]))) ∧
    (usersOfPosts postModel []).difference (usersOfPosts postEnum []) =
      .ok [.dropTable "Post" "post"] ∧
    (usersOfPosts postModel []).catalogue.replay [.dropTable "Post" "post"] ≠
      some ((usersOfPosts postModel []).target (usersOfPosts postEnum [])) := by
  have hvalid : (usersOfPosts postModel []).validate = .ok () := rfl
  refine ⟨⟨_, rfl, rfl, ?_⟩, rfl, ?_⟩
  · exact (replay_difference_eq_target_iff hvalid (by decide) rfl).mpr (by decide)
  · exact mt (replay_difference_eq_target_iff hvalid (by decide) rfl).mp (by decide)

end Document

end SchemaMigration
