import SchemaMigration.Layout.Table
import SchemaMigration.Proofs.Fallible

/-! # What a laid out table consists of

A layout succeeds exactly when its parts do. The columns of a table are those of the fields that
become columns, in order and under their names.
-/

namespace SchemaMigration

open Sql (Column Constraint Index Table)

namespace Document

variable {d : Document} {m : Model} {f : Field}

theorem mem_columnFields : f ∈ d.columnFields m ↔ f ∈ m.fields ∧ d.isColumn f = true := by
  simp [columnFields]

/-! ## Columns -/

theorem plainColumn_eq_ok_iff {column : Column} :
    d.plainColumn f = .ok column ↔
      f.checkIdentity = .ok () ∧ ∃ default, d.defaultValue f = .ok default ∧
        column = { name := f.columnName, type := f.columnType,
                   isRequired := !f.type.isOptional, default } := by
  unfold plainColumn
  simp only [bind_eq_ok_iff, pure_eq_ok_iff]
  constructor
  · rintro ⟨_, hidentity, default, hdefault, rfl⟩
    exact ⟨hidentity, default, hdefault, rfl⟩
  · rintro ⟨hidentity, default, hdefault, rfl⟩
    exact ⟨(), hidentity, default, hdefault, rfl⟩

theorem column_eq_ok_iff {isAssignedKey : Bool} {column : Column} :
    d.column f isAssignedKey = .ok column ↔
      ∃ plain, d.plainColumn f = .ok plain ∧
        column = { plain with
          isAssignedKey, isUnique := f.isUnique, uniqueName := f.attributeName? "unique" } := by
  unfold Document.column
  simp only [bind_eq_ok_iff, pure_eq_ok_iff]

theorem plainColumn_name {column : Column} (h : d.plainColumn f = .ok column) :
    column.name = f.columnName := by
  obtain ⟨_, _, _, rfl⟩ := plainColumn_eq_ok_iff.mp h
  rfl

theorem column_name {isAssignedKey : Bool} {column : Column}
    (h : d.column f isAssignedKey = .ok column) : column.name = f.columnName := by
  obtain ⟨plain, hplain, rfl⟩ := column_eq_ok_iff.mp h
  exact (plainColumn_name hplain :)

theorem addedColumn_eq_ok_iff {column : Column} :
    d.addedColumn m f = .ok column ↔ d.plainColumn f = .ok column :=
  mapError_eq_ok_iff

theorem columns_eq_ok_iff {columns : List Column} :
    d.columns m = .ok columns ↔
      List.Forall₂ (fun f column => d.column f (m.assignedKey? == some f.name.name) = .ok column)
        (d.columnFields m) columns := by
  simp only [Document.columns, mapM_eq_ok_iff, mapError_eq_ok_iff]

/-- The columns of a table have the names of the fields they come from. -/
theorem columns_names {columns : List Column} (h : d.columns m = .ok columns) :
    columns.map Column.name = (d.columnFields m).map Field.columnName := by
  rw [columns_eq_ok_iff] at h
  generalize d.columnFields m = fields at h ⊢
  induction h with
  | nil => rfl
  | cons hcolumn _ ih => simp only [List.map_cons, column_name hcolumn, ih]

/-! ## Foreign keys -/

/-- A foreign key is that of a relation which names local fields and leads to a model. -/
theorem foreignKey_eq_ok_some_iff {constraint : Constraint} :
    d.foreignKey m f = .ok (some constraint) ↔
      ∃ relation target onDelete onUpdate, f.relation? = some relation ∧
        relation.hasForeignKey = true ∧ d.model? f.type.base = some target ∧
        referentialAction relation.onDelete = .ok onDelete ∧
        referentialAction relation.onUpdate = .ok onUpdate ∧
        constraint = .foreignKey relation.name {
          columns := relation.fields.map m.columnNameOf
          table := target.tableName
          references := relation.references.map target.columnNameOf
          onDelete
          onUpdate } := by
  unfold foreignKey
  cases f.relation? with
  | none => simp
  | some relation =>
      cases hkey : relation.hasForeignKey with
      | false => simp [hkey]
      | true =>
          cases d.model? f.type.base with
          | none => simp [hkey]
          | some target =>
              simp only [hkey, Bool.not_true, Bool.false_eq_true, if_false, bind_eq_ok_iff,
                pure_eq_ok_iff, Option.some.injEq]
              constructor
              · rintro ⟨onDelete, hdelete, onUpdate, hupdate, rfl⟩
                exact ⟨relation, target, onDelete, onUpdate, rfl, hkey, rfl, hdelete, hupdate, rfl⟩
              · rintro ⟨_, _, onDelete, onUpdate, rfl, _, rfl, hdelete, hupdate, rfl⟩
                exact ⟨onDelete, hdelete, onUpdate, hupdate, rfl⟩

/-- A field has no foreign key exactly when its relation, if any, names no local fields. -/
theorem foreignKey_eq_ok_none_iff : d.foreignKey m f = .ok none ↔ f.hasForeignKey = false := by
  unfold foreignKey Field.hasForeignKey
  cases f.relation? with
  | none => simp
  | some relation =>
      cases hkey : relation.hasForeignKey with
      | false => simp [hkey]
      | true =>
          cases d.model? f.type.base with
          | none => simp [hkey]
          | some target =>
              simp only [hkey, Bool.not_true, Bool.false_eq_true, if_false, bind_eq_ok_iff,
                pure_eq_ok_iff, Option.any_some, reduceCtorEq, and_false, exists_false]

theorem foreignKeys_eq_ok_iff {constraints : List Constraint} :
    d.foreignKeys m = .ok constraints ↔
      ∃ keys, List.Forall₂ (fun f key => d.foreignKey m f = .ok key) m.fields keys ∧
        constraints = keys.filterMap id := by
  unfold foreignKeys
  simp only [bind_eq_ok_iff, mapM_eq_ok_iff, mapError_eq_ok_iff, pure_eq_ok_iff]

/-! ## Tables -/

theorem table_eq_ok_iff {table : Table} :
    d.table m = .ok table ↔
      ∃ columns checks foreignKeys, d.columns m = .ok columns ∧ columns ≠ [] ∧
        m.checkConstraints = .ok checks ∧ d.foreignKeys m = .ok foreignKeys ∧
        table = { name := m.tableName
                  columns
                  constraints := (m.primaryKey?.map Constraint.primaryKey).toList
                    ++ m.uniqueConstraints ++ checks ++ foreignKeys } := by
  unfold Document.table
  simp only [bind_eq_ok_iff]
  constructor
  · rintro ⟨columns, hcolumns, h⟩
    split at h
    · simp [throw, throwThe, MonadExceptOf.throw, bind, Except.bind] at h
    next hne =>
      simp only [bind_eq_ok_iff, mapError_eq_ok_iff, pure_eq_ok_iff] at h
      obtain ⟨checks, hchecks, foreignKeys, hkeys, rfl⟩ := h
      exact ⟨columns, checks, foreignKeys, hcolumns, by simpa using hne, hchecks, hkeys, rfl⟩
  · rintro ⟨columns, checks, foreignKeys, hcolumns, hne, hchecks, hkeys, rfl⟩
    refine ⟨columns, hcolumns, ?_⟩
    rw [if_neg (by simpa using hne)]
    simp only [bind_eq_ok_iff, mapError_eq_ok_iff, pure_eq_ok_iff]
    exact ⟨checks, hchecks, foreignKeys, hkeys, rfl⟩

theorem table_name {table : Table} (h : d.table m = .ok table) : table.name = m.tableName := by
  obtain ⟨_, _, _, _, _, _, _, rfl⟩ := table_eq_ok_iff.mp h
  rfl

theorem table_columnNames {table : Table} (h : d.table m = .ok table) :
    table.columns.map Column.name = (d.columnFields m).map Field.columnName := by
  obtain ⟨_, _, _, hcolumns, _, _, _, rfl⟩ := table_eq_ok_iff.mp h
  exact columns_names hcolumns

/-- Where a constraint of a model's table comes from: the key of the model, an attribute, or the
relation of a field. -/
inductive HasConstraint (d : Document) (m : Model) : Constraint → Prop
  | primaryKey {columns : List String} (h : m.primaryKey? = some columns) :
      HasConstraint d m (.primaryKey columns)
  | unique {a : Attribute} {list : FieldListArgs} (ha : a ∈ m.attributesNamed "unique")
      (h : a.fieldList? = some list) :
      HasConstraint d m (.unique list.name (list.fields.map m.columnNameOf))
  | check {a : Attribute} {check : CheckArgs} (ha : a ∈ m.attributesNamed "check")
      (h : a.check? = some check) : HasConstraint d m (.check check.name check.expression)
  | foreignKey {f : Field} {constraint : Constraint} (hf : f ∈ m.fields)
      (h : d.foreignKey m f = .ok (some constraint)) : HasConstraint d m constraint

theorem hasConstraint_of_table {table : Table} (h : d.table m = .ok table)
    {constraint : Constraint} (hconstraint : constraint ∈ table.constraints) :
    d.HasConstraint m constraint := by
  obtain ⟨_, checks, _, _, _, hchecks, hkeys, rfl⟩ := table_eq_ok_iff.mp h
  obtain ⟨keys, hparts, rfl⟩ := foreignKeys_eq_ok_iff.mp hkeys
  simp only [List.mem_append] at hconstraint
  rcases hconstraint with ((hprimary | hunique) | hcheck) | hforeign
  · simp only [Option.mem_toList, Option.map_eq_some_iff] at hprimary
    obtain ⟨columns, hcolumns, rfl⟩ := hprimary
    exact .primaryKey hcolumns
  · simp only [Model.uniqueConstraints, List.mem_filterMap, Option.map_eq_some_iff] at hunique
    obtain ⟨a, ha, list, hlist, rfl⟩ := hunique
    exact .unique ha hlist
  · obtain ⟨a, ha, hcheck⟩ := exists_of_mem_right (mapM_eq_ok_iff.mp hchecks) hcheck
    split at hcheck
    next check hargs =>
      obtain rfl := Except.ok.inj hcheck
      exact .check ha hargs
    · simp at hcheck
  · simp only [List.mem_filterMap, id_eq, exists_eq_right] at hforeign
    obtain ⟨f, hf, hkey⟩ := exists_of_mem_right hparts hforeign
    exact .foreignKey hf hkey

/-! ## Indexes -/

/-- The indexes of all tables. -/
def standaloneIndexes (d : Document) : List Index :=
  d.models.flatMap d.indexes

/-- Every index of a model is an index of its table. -/
theorem index_table {index : Index} (h : index ∈ d.indexes m) : index.table = m.tableName := by
  simp only [indexes, List.mem_append, List.mem_map, List.mem_filterMap,
    Option.map_eq_some_iff] at h
  rcases h with ⟨_, _, rfl⟩ | ⟨_, _, _, _, rfl⟩ <;> rfl

end Document

theorem Model.uniqueIndex?_eq_some_iff {m : Model} {f : Field} {index : Index} :
    m.uniqueIndex? f = some index ↔
      f.isUnique = true ∧
        index = { name := (f.attributeName? "unique").getD
                    (Layout.defaultUniqueName m.tableName [f.columnName])
                  table := m.tableName
                  columns := [f.columnName]
                  isUnique := true } := by
  unfold Model.uniqueIndex?
  split
  next hunique => simp only [hunique, true_and, Option.some.injEq, eq_comm]
  next hunique => simp [hunique]

end SchemaMigration
