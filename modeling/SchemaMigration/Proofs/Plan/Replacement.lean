import SchemaMigration.Proofs.Plan.Correctness

/-! # Tables that are replaced

Models are matched by their names, and tables are created before others are dropped. So when a new
model takes the table of a model that is gone, the plan creates a table that is there still, and
then drops it. This happens exactly when a table that both documents have changes its model.
-/

namespace SchemaMigration

open Sql (Table)

namespace Document

variable {old new : Document} {m : Model} {changes : List Change}

/-- A table that two documents have belongs to models of one name. -/
def TablesKeepModels (old new : Document) : Prop :=
  ∀ q ∈ old.models, ∀ m ∈ new.models, q.tableName = m.tableName → q.name.name = m.name.name

instance (old new : Document) : Decidable (old.TablesKeepModels new) :=
  inferInstanceAs (Decidable (∀ q ∈ old.models, ∀ m ∈ new.models,
    q.tableName = m.tableName → q.name.name = m.name.name))

/-- A plan creates the table of every new model. -/
theorem exists_createTable_of_fresh (hold : old.validate = .ok ())
    (hchanges : old.difference new = .ok changes) (hm : m ∈ new.models)
    (hfresh : m.name.name ∉ old.models.map (·.name.name)) :
    ∃ model table, new.table m = .ok table ∧ .createTable model table ∈ changes := by
  obtain ⟨_, parts, hparts, rfl⟩ := difference_eq_ok_iff.mp hchanges
  obtain ⟨part, hpart, hmodel⟩ := exists_of_mem_left hparts hm
  have hnone : old.model? m.name.name = none :=
    model?_eq_none_iff.mpr fun q hq heq => hfresh (List.mem_map.mpr ⟨q, hq, heq⟩)
  rw [modelChanges_of_none hold hnone] at hmodel
  obtain ⟨table, htable, rfl⟩ := creation_eq_ok_iff.mp hmodel
  exact ⟨m.name.name, table, htable,
    List.mem_append_left _ (List.mem_flatten.mpr ⟨_, hpart, List.mem_cons_self⟩)⟩

/-- The tables that a plan creates are those of the new models. -/
theorem createTable_mem_difference_iff (hold : old.validate = .ok ())
    (hchanges : old.difference new = .ok changes) {table : Table} :
    (∃ model, .createTable model table ∈ changes) ↔
      ∃ m ∈ new.models, m.name.name ∉ old.models.map (·.name.name) ∧ new.table m = .ok table := by
  constructor
  · rintro ⟨model, hmem⟩
    exact (brings_of_mem_difference hchanges hmem).of_createTable
  · rintro ⟨m, hm, hfresh, htable⟩
    obtain ⟨model, created, hcreated, hmem⟩ := exists_createTable_of_fresh hold hchanges hm hfresh
    obtain rfl := Except.ok.inj (htable.symm.trans hcreated)
    exact ⟨model, hmem⟩

/-- The tables that a plan drops are those of the models that are gone. -/
theorem dropTable_mem_difference_iff (hold : old.validate = .ok ())
    (hchanges : old.difference new = .ok changes) {table : String} :
    (∃ model, .dropTable model table ∈ changes) ↔
      ∃ q ∈ old.droppedModels new, q.tableName = table := by
  constructor
  · rintro ⟨model, hmem⟩
    obtain ⟨q, hq, hgone, _, htable⟩ := (brings_of_mem_difference hchanges hmem).of_dropTable
    exact ⟨q, List.mem_filter.mpr ⟨hq, by simp [hgone]⟩, htable⟩
  · rintro ⟨q, hq, rfl⟩
    obtain ⟨_, parts, _, rfl⟩ := difference_eq_ok_iff.mp hchanges
    rw [lastByName_of_nodup (modelNames_nodup hold)]
    exact ⟨q.name.name, List.mem_append_right _ (List.mem_map.mpr ⟨q, hq, rfl⟩)⟩

/-- A model that is kept keeps its table. -/
theorem Keeps.tableName_eq (hold : old.validate = .ok ()) (hchanges : old.difference new = .ok changes)
    {previous : Model} (hkeeps : old.Keeps new previous m) : previous.tableName = m.tableName := by
  obtain ⟨_, parts, hparts, _⟩ := difference_eq_ok_iff.mp hchanges
  obtain ⟨part, hpart⟩ := exists_alteration hold hparts hkeeps
  exact tableName_of_alteration hkeeps.2.2 hpart

/-- When a new model takes a table of the old document, the model that had it is gone. -/
theorem mem_droppedModels_of_tableName_eq (hold : old.validate = .ok ())
    (hnewTables : (new.models.map Model.tableName).Nodup)
    (hchanges : old.difference new = .ok changes) (hm : m ∈ new.models)
    (hfresh : m.name.name ∉ old.models.map (·.name.name)) {q : Model} (hq : q ∈ old.models)
    (htable : q.tableName = m.tableName) : q ∈ old.droppedModels new := by
  refine mem_droppedModels.mpr ⟨hq, fun n hn hname => hfresh ?_⟩
  have hkept : q.tableName = n.tableName := Keeps.tableName_eq hold hchanges ⟨hq, hn, hname.symm⟩
  obtain rfl : n = m := eq_of_nodup_map hnewTables hn hm (hkept.symm.trans htable)
  exact List.mem_map.mpr ⟨q, hq, hname.symm⟩

/-- A created table bears the name of an old one exactly when the plan drops that one. -/
theorem createdTable_mem_iff_dropped (hold : old.validate = .ok ())
    (hnewTables : (new.models.map Model.tableName).Nodup)
    (hchanges : old.difference new = .ok changes) {model : String} {table : Table}
    (hmem : .createTable model table ∈ changes) :
    table.name ∈ old.models.map Model.tableName ↔
      ∃ dropped, .dropTable dropped table.name ∈ changes := by
  obtain ⟨m, hm, hfresh, htable⟩ := (createTable_mem_difference_iff hold hchanges).mp ⟨model, hmem⟩
  rw [table_name htable, dropTable_mem_difference_iff hold hchanges]
  constructor
  · intro hthere
    obtain ⟨q, hq, heq⟩ := List.mem_map.mp hthere
    exact ⟨q, mem_droppedModels_of_tableName_eq hold hnewTables hchanges hm hfresh hq heq, heq⟩
  · rintro ⟨q, hq, heq⟩
    exact List.mem_map.mpr ⟨q, (mem_droppedModels.mp hq).1, heq⟩

/-- No table is created under the name of an old one exactly when the tables that both documents have
keep their models. -/
theorem createdTables_fresh_iff (hold : old.validate = .ok ())
    (holdTables : (old.models.map Model.tableName).Nodup)
    (hchanges : old.difference new = .ok changes) :
    (∀ model table, .createTable model table ∈ changes →
        table.name ∉ old.models.map Model.tableName) ↔ old.TablesKeepModels new := by
  constructor
  · intro hnone q hq m hm heq
    by_cases hname : m.name.name ∈ old.models.map (·.name.name)
    · -- The model is kept with its table, so it is the one that had the table before.
      obtain ⟨previous, hprevious, hkept⟩ := List.mem_map.mp hname
      have htable : previous.tableName = m.tableName :=
        Keeps.tableName_eq hold hchanges ⟨hprevious, hm, hkept⟩
      rwa [eq_of_nodup_map holdTables hq hprevious (heq.trans htable.symm)]
    · -- The model is new, so its table is created under a name that was taken.
      obtain ⟨model, table, htable, hmem⟩ := exists_createTable_of_fresh hold hchanges hm hname
      refine absurd (List.mem_map.mpr ⟨q, hq, heq⟩) ?_
      exact table_name htable ▸ hnone model table hmem
  · intro hkeep model table hmem hthere
    obtain ⟨m, hm, hfresh, htable⟩ :=
      (createTable_mem_difference_iff hold hchanges).mp ⟨model, hmem⟩
    obtain ⟨q, hq, heq⟩ := List.mem_map.mp hthere
    exact hfresh (List.mem_map.mpr ⟨q, hq, hkeep q hq m hm (heq.trans (table_name htable))⟩)

/-- In documents whose tables are told apart by their names, a plan creates a table under the name
of an old one exactly when it drops that one too, and it never does so exactly when the tables that
both documents have keep their models. -/
theorem createdTables_of_difference (hold : old.validate = .ok ())
    (holdTables : (old.models.map Model.tableName).Nodup)
    (hnewTables : (new.models.map Model.tableName).Nodup)
    (hchanges : old.difference new = .ok changes) :
    (∀ model table, .createTable model table ∈ changes →
      (table.name ∈ old.models.map Model.tableName ↔
        ∃ dropped, .dropTable dropped table.name ∈ changes)) ∧
    ((∀ model table, .createTable model table ∈ changes →
        table.name ∉ old.models.map Model.tableName) ↔ old.TablesKeepModels new) :=
  ⟨fun _ _ hmem => createdTable_mem_iff_dropped hold hnewTables hchanges hmem,
    createdTables_fresh_iff hold holdTables hchanges⟩

/-- Users that are called accounts under another table leave no trace. Under the same table the plan
creates the table that is there, and drops it. -/
theorem createdTables_of_renamed_users :
    let old : Document := ⟨[bareModel "User" "user" []]⟩
    let moved : Document := ⟨[bareModel "Account" "account" []]⟩
    let renamed : Document := ⟨[bareModel "Account" "user" []]⟩
    (∃ changes, old.difference moved = .ok changes ∧ changes.length = 2 ∧
      ∀ model table, .createTable model table ∈ changes →
        table.name ∉ old.models.map Model.tableName) ∧
    ∃ table, old.difference renamed = .ok [.createTable "Account" table, .dropTable "User" "user"] ∧
      ¬ ∀ model table', .createTable model table' ∈
          [Change.createTable "Account" table, .dropTable "User" "user"] →
        table'.name ∉ old.models.map Model.tableName := by
  intro old moved renamed
  have hvalid : old.validate = .ok () := rfl
  obtain ⟨changes, hmoved, hlength⟩ :
      ∃ changes, old.difference moved = .ok changes ∧ changes.length = 2 := ⟨_, rfl, rfl⟩
  obtain ⟨table, hrenamed⟩ : ∃ table, old.difference renamed =
      .ok [.createTable "Account" table, .dropTable "User" "user"] := ⟨_, rfl⟩
  refine ⟨⟨changes, hmoved, hlength, ?_⟩, table, hrenamed, ?_⟩
  · exact (createdTables_of_difference hvalid (by decide) (by decide) hmoved).2.mpr (by decide)
  · exact mt (createdTables_of_difference hvalid (by decide) (by decide) hrenamed).2.mp (by decide)

end Document

end SchemaMigration
