import SchemaMigration.Proofs.Layout.Resolution

/-! # The clauses of a table

A table has one column for each field that becomes one, and then its constraints: the key, if there
is one, and one constraint for each attribute of the model and each relation that asks for it, in the
order of their declarations. The key of a model is either the column of its one marked field, when
the database assigns the values, or a constraint. A valid document marks at most one field, and no
field beside a key that is an attribute, so there are never two keys.
-/

namespace SchemaMigration

open Sql (Column Constraint Index Table)

namespace Sql

def Constraint.isPrimaryKey : Constraint → Bool
  | .primaryKey _ => true
  | _ => false

/-- How many times a table declares a primary key, within a column or as a constraint. -/
def Table.keyCount (t : Table) : Nat :=
  t.columns.countP Column.isAssignedKey + t.constraints.countP Constraint.isPrimaryKey

end Sql

/-- A check stands for a constraint with its expression. -/
def Attribute.YieldsCheck (a : Attribute) (constraint : Constraint) : Prop :=
  ∃ check, a.check? = some check ∧ constraint = .check check.name check.expression

namespace Document

/-- The definition of a column for a field. It is the key by itself only for the one field of the model
that is marked as the key and takes values that the database assigns, which are integers. -/
structure Defines (d : Document) (m : Model) (f : Field) (column : Column) : Prop where
  name : column.name = f.columnName
  definition : d.column f column.isAssignedKey = .ok column
  key : column.isAssignedKey = true ↔ m.idFields = [f] ∧ f.isIdentity = true
  integer : column.isAssignedKey = true → f.type.scalar? = some .int

/-- The relation of a field stands for a foreign key, between the columns of the fields that it lists
in the model and in its target. -/
def YieldsForeignKey (d : Document) (m : Model) (f : Field) (constraint : Constraint) : Prop :=
  ∃ relation target key, f.relation? = some relation ∧ d.model? f.type.base = some target ∧
    constraint = .foreignKey relation.name key ∧ key.table = target.tableName ∧
    m.Resolves relation.fields key.columns ∧ target.Resolves relation.references key.references

/-- A table with its indexes accounts for what a model declares: there is one clause or one index for
each declaration, in order, and there are no others. A key that is a constraint comes from the
attribute for it, or else from the one marked field. -/
structure AccountsFor (d : Document) (m : Model) (table : Table) : Prop where
  clauses : table.clauses = table.columns.map Column.sql ++ table.constraints.map Constraint.sql
  columns : List.Forall₂ (d.Defines m) (d.columnFields m) table.columns
  constraints : ∃ unique checks foreignKeys,
    table.constraints = (m.primaryKey?.map Constraint.primaryKey).toList ++ unique ++ checks
      ++ foreignKeys ∧
    List.Forall₂ (m.Yields .unique) (m.attributesNamed "unique") unique ∧
    List.Forall₂ Attribute.YieldsCheck (m.attributesNamed "check") checks ∧
    List.Forall₂ (d.YieldsForeignKey m) (m.fields.filter Field.hasForeignKey) foreignKeys
  primaryKey : ∀ columns, m.primaryKey? = some columns ↔
    (∃ a, m.attribute? "id" = some a ∧ m.Yields (fun _ columns => columns) a columns) ∨
    ∃ f, m.idFields = [f] ∧ f.isIdentity = false ∧ columns = [f.columnName]
  indexes : ∃ marked listed, d.indexes m = marked ++ listed ∧
    List.Forall₂ (fun f index => index = m.index (f.attributeName? "index") [f.columnName])
      ((d.columnFields m).filter fun f => f.has "index") marked ∧
    List.Forall₂ (m.Yields m.index) (m.attributesNamed "index") listed
  oneKey : table.keyCount ≤ 1

end Document

/-! ## The key of a model -/

namespace Model

variable {d : Document} {m : Model} {f : Field} {name : String}

theorem assignedKey?_eq_some_iff : m.assignedKey? = some name ↔
    ∃ f, m.idFields = [f] ∧ f.isIdentity = true ∧ f.name.name = name := by
  unfold assignedKey?
  split
  next f hids => simp [hids]
  next hids =>
    simp only [reduceCtorEq, false_iff]
    rintro ⟨f, hf, _⟩
    exact hids f hf

theorem mem_fields_of_idFields (hids : m.idFields = [f]) : f ∈ m.fields ∧ f.isId = true := by
  have hf : f ∈ m.idFields := by
    rw [hids]
    exact List.mem_singleton_self f
  exact List.mem_filter.mp hf

theorem isAssigned_iff (h : m.IsWellFormed d) (hf : f ∈ m.fields) :
    (m.assignedKey? == some f.name.name) = true ↔ m.idFields = [f] ∧ f.isIdentity = true := by
  rw [beq_iff_eq, assignedKey?_eq_some_iff]
  constructor
  · rintro ⟨g, hids, hidentity, hname⟩
    obtain rfl := eq_of_nodup_map h.fieldNames (mem_fields_of_idFields hids).1 hf hname
    exact ⟨hids, hidentity⟩
  · rintro ⟨hids, hidentity⟩
    exact ⟨f, hids, hidentity, rfl⟩

theorem idFields_cases (h : m.IsWellFormed d) : m.idFields = [] ∨ ∃ f, m.idFields = [f] := by
  have hlength : m.idFields.length ≤ 1 := by
    rw [idFields, ← List.countP_eq_length_filter]
    exact h.oneId
  cases hids : m.idFields with
  | nil => exact .inl rfl
  | cons f rest =>
      rw [hids, List.length_cons] at hlength
      rw [List.length_eq_zero_iff.mp (Nat.le_zero.mp (Nat.le_of_succ_le_succ hlength))]
      exact .inr ⟨f, rfl⟩

/-- A model with a marked field has no attribute for a key. -/
theorem attribute?_id_eq_none (h : m.IsWellFormed d) (hids : m.idFields = [f]) :
    m.attribute? "id" = none := by
  apply List.find?_eq_none.mpr
  intro a ha hlabel
  exact h.oneKey ⟨⟨f, mem_fields_of_idFields hids⟩, a, ha, by simpa using hlabel⟩

/-- A marked field is the key of the table, unless it is the key by its own column. -/
theorem primaryKey?_of_idFields (h : m.IsWellFormed d) (hids : m.idFields = [f]) :
    m.primaryKey? = if f.isIdentity then none else some [f.columnName] := by
  have hnone := attribute?_id_eq_none h hids
  cases hidentity : f.isIdentity <;> simp [primaryKey?, assignedKey?, hnone, hids, hidentity]

theorem Resolves.eq_map {names columns : List String} (h : m.Resolves names columns) :
    columns = names.map m.columnNameOf := by
  induction h with
  | nil => rfl
  | cons hname _ ih =>
      obtain ⟨f, _, hf, rfl⟩ := hname
      rw [List.map_cons, ← ih, columnNameOf, hf]

theorem Yields.unique {α : Type} {make : Option String → List String → α} {a : Attribute} {x y : α}
    (hx : m.Yields make a x) (hy : m.Yields make a y) : x = y := by
  obtain ⟨list, columns, hlist, _, hcolumns, rfl⟩ := hx
  obtain ⟨list', columns', hlist', _, hcolumns', rfl⟩ := hy
  obtain rfl := Option.some.inj (hlist.symm.trans hlist')
  rw [hcolumns.eq_map, hcolumns'.eq_map]

end Model

namespace Document

variable {d : Document} {m : Model} {f : Field}

/-! ## Columns -/

theorem column_isAssignedKey {isAssignedKey : Bool} {column : Column}
    (h : d.column f isAssignedKey = .ok column) : column.isAssignedKey = isAssignedKey := by
  obtain ⟨plain, _, rfl⟩ := column_eq_ok_iff.mp h
  rfl

/-- The database assigns values of the key only, and only integers. -/
theorem checkIdentity_eq_ok_iff : f.checkIdentity = .ok () ↔
    (f.isIdentity = true → f.isId = true ∧ f.type.scalar? = some .int) := by
  unfold Field.checkIdentity
  cases f.isIdentity <;> cases f.isId <;> simp

theorem scalar?_of_column {isAssignedKey : Bool} {column : Column}
    (h : d.column f isAssignedKey = .ok column) (hidentity : f.isIdentity = true) :
    f.type.scalar? = some .int := by
  obtain ⟨plain, hplain, _⟩ := column_eq_ok_iff.mp h
  obtain ⟨hcheck, _⟩ := plainColumn_eq_ok_iff.mp hplain
  exact (checkIdentity_eq_ok_iff.mp hcheck hidentity).2

theorem defines_of_column (h : m.IsWellFormed d) (hf : f ∈ m.fields) {column : Column}
    (hcolumn : d.column f (m.assignedKey? == some f.name.name) = .ok column) :
    d.Defines m f column := by
  have hkey := column_isAssignedKey hcolumn
  have hassigned := Model.isAssigned_iff h hf
  rw [← hkey] at hcolumn hassigned
  exact {
    name := column_name hcolumn
    definition := hcolumn
    key := hassigned
    integer := fun htrue => scalar?_of_column hcolumn (hassigned.mp htrue).2 }

theorem forall₂_defines (h : m.IsWellFormed d) {columns : List Column}
    (hcolumns : d.columns m = .ok columns) :
    List.Forall₂ (d.Defines m) (d.columnFields m) columns := by
  apply forall₂_imp_of_mem (columns_eq_ok_iff.mp hcolumns)
  intro f hf column hcolumn
  exact defines_of_column h (mem_columnFields.mp hf).1 hcolumn

/-! ## Constraints -/

theorem forall₂_yieldsCheck {checks : List Constraint} (h : m.checkConstraints = .ok checks) :
    List.Forall₂ Attribute.YieldsCheck (m.attributesNamed "check") checks := by
  refine (mapM_eq_ok_iff.mp h).imp fun a constraint hcheck => ?_
  split at hcheck
  next check hargs => exact ⟨check, hargs, (Except.ok.inj hcheck).symm⟩
  next => cases hcheck

theorem yieldsForeignKey_of_valid (h : d.validate = .ok ()) (hm : m ∈ d.models) (hf : f ∈ m.fields)
    {constraint : Constraint} (hkey : d.foreignKey m f = .ok (some constraint)) :
    d.YieldsForeignKey m f constraint := by
  obtain ⟨relation, target, _, _, _, _, hrelation, htarget, rfl, hcolumns, hreferences, _⟩ :=
    columns_of_foreignKey_of_valid h hm hf hkey
  exact ⟨relation, target, _, hrelation, htarget, rfl, rfl, hcolumns, hreferences⟩

/-- Leaving out the fields without a foreign key leaves out no key and keeps the order. -/
theorem forall₂_foreignKey {fields : List Field} {keys : List (Option Constraint)}
    (h : List.Forall₂ (fun f key => d.foreignKey m f = .ok key) fields keys) :
    List.Forall₂ (fun f constraint => d.foreignKey m f = .ok (some constraint))
      (fields.filter Field.hasForeignKey) (keys.filterMap id) := by
  induction h with
  | nil => exact .nil
  | @cons f key fields keys hkey _ ih =>
      cases key with
      | none =>
          have hnone := foreignKey_eq_ok_none_iff.mp hkey
          rwa [List.filter_cons_of_neg (by simp [hnone]), List.filterMap_cons_none rfl]
      | some constraint =>
          have hsome : f.hasForeignKey = true := by
            by_contra hnone
            rw [foreignKey_eq_ok_none_iff.mpr (by simpa using hnone)] at hkey
            cases hkey
          rw [List.filter_cons_of_pos hsome]
          exact .cons hkey ih

theorem forall₂_yieldsForeignKey (h : d.validate = .ok ()) (hm : m ∈ d.models)
    {foreignKeys : List Constraint} (hkeys : d.foreignKeys m = .ok foreignKeys) :
    List.Forall₂ (d.YieldsForeignKey m) (m.fields.filter Field.hasForeignKey) foreignKeys := by
  obtain ⟨keys, hparts, rfl⟩ := foreignKeys_eq_ok_iff.mp hkeys
  apply forall₂_imp_of_mem (forall₂_foreignKey hparts)
  intro f hf constraint hkey
  exact yieldsForeignKey_of_valid h hm (List.mem_filter.mp hf).1 hkey

/-! ## One key -/

/-- The key that is a constraint comes from the attribute for it, or else from the one marked field
when it is not the key by its own column. -/
theorem primaryKey?_eq_some_iff (h : d.validate = .ok ()) (hm : m ∈ d.models)
    {columns : List String} : m.primaryKey? = some columns ↔
      (∃ a, m.attribute? "id" = some a ∧ m.Yields (fun _ columns => columns) a columns) ∨
      ∃ f, m.idFields = [f] ∧ f.isIdentity = false ∧ columns = [f.columnName] := by
  have hwellFormed := isWellFormed_of_valid h hm
  constructor
  · intro hcolumns
    cases ha : m.attribute? "id" with
    | some a =>
        obtain ⟨key, hkey, hyields⟩ := primaryKey?_of_valid h hm ha
        obtain rfl := Option.some.inj (hkey.symm.trans hcolumns)
        exact .inl ⟨a, rfl, hyields⟩
    | none =>
        rcases Model.idFields_cases hwellFormed with hids | ⟨f, hids⟩
        · simp [Model.primaryKey?, ha, hids] at hcolumns
        · rw [Model.primaryKey?_of_idFields hwellFormed hids] at hcolumns
          cases hidentity : f.isIdentity with
          | false =>
              rw [hidentity] at hcolumns
              exact .inr ⟨f, hids, hidentity, (Option.some.inj hcolumns).symm⟩
          | true =>
              rw [hidentity] at hcolumns
              cases hcolumns
  · rintro (⟨a, ha, hyields⟩ | ⟨f, hids, hidentity, rfl⟩)
    · obtain ⟨key, hkey, hkeyYields⟩ := primaryKey?_of_valid h hm ha
      rw [hkey, hyields.unique hkeyYields]
    · rw [Model.primaryKey?_of_idFields hwellFormed hids, hidentity]
      rfl

/-- A model marks at most one field, so at most one column is the key. -/
theorem countP_isAssignedKey_le (h : m.IsWellFormed d) {columns : List Column}
    (hcolumns : List.Forall₂ (d.Defines m) (d.columnFields m) columns) :
    columns.countP Column.isAssignedKey ≤ 1 := by
  have hmarked : columns.countP Column.isAssignedKey ≤ (d.columnFields m).countP Field.isId := by
    generalize d.columnFields m = fields at hcolumns ⊢
    induction hcolumns with
    | nil => exact Nat.le_refl 0
    | @cons f column fields columns hf _ ih =>
        rw [List.countP_cons, List.countP_cons]
        by_cases hkey : column.isAssignedKey = true
        · have hid : f.isId = true := (Model.mem_fields_of_idFields (hf.key.mp hkey).1).2
          rw [if_pos hkey, if_pos hid]
          exact Nat.succ_le_succ ih
        · rw [if_neg hkey]
          exact Nat.le_add_right_of_le ih
  calc columns.countP Column.isAssignedKey
      ≤ (d.columnFields m).countP Field.isId := hmarked
    _ ≤ m.fields.countP Field.isId := List.filter_sublist.countP_le
    _ ≤ 1 := h.oneId

/-- Beside a key that is a constraint no column is the key. -/
theorem countP_isAssignedKey_eq_zero (h : m.IsWellFormed d) {key : List String}
    (hkey : m.primaryKey? = some key) {columns : List Column}
    (hcolumns : List.Forall₂ (d.Defines m) (d.columnFields m) columns) :
    columns.countP Column.isAssignedKey = 0 := by
  apply List.countP_eq_zero.mpr
  intro column hcolumn hassigned
  obtain ⟨f, _, hf⟩ := exists_of_mem_right hcolumns hcolumn
  obtain ⟨hids, hidentity⟩ := hf.key.mp hassigned
  rw [Model.primaryKey?_of_idFields h hids, if_pos hidentity] at hkey
  cases hkey

/-- The key of a model is in one place: within a column or as a constraint. -/
theorem countP_isAssignedKey_add_le (h : m.IsWellFormed d) {columns : List Column}
    (hcolumns : List.Forall₂ (d.Defines m) (d.columnFields m) columns) :
    columns.countP Column.isAssignedKey + m.primaryKey?.toList.length ≤ 1 := by
  cases hkey : m.primaryKey? with
  | none => exact countP_isAssignedKey_le h hcolumns
  | some key =>
      rw [countP_isAssignedKey_eq_zero h hkey hcolumns]
      exact Nat.le_refl 1

theorem countP_isPrimaryKey_eq_zero {α : Type} {rel : α → Constraint → Prop}
    (hrel : ∀ a constraint, rel a constraint → constraint.isPrimaryKey = false) {as : List α}
    {constraints : List Constraint} (h : List.Forall₂ rel as constraints) :
    constraints.countP Constraint.isPrimaryKey = 0 := by
  apply List.countP_eq_zero.mpr
  intro constraint hconstraint
  obtain ⟨a, _, ha⟩ := exists_of_mem_right h hconstraint
  simp [hrel a constraint ha]

/-- Constraints that are made for attributes and relations are no keys of the table. -/
theorem countP_isPrimaryKey {key : Option (List String)} {unique checks foreignKeys : List Constraint}
    (hunique : List.Forall₂ (m.Yields .unique) (m.attributesNamed "unique") unique)
    (hchecks : List.Forall₂ Attribute.YieldsCheck (m.attributesNamed "check") checks)
    (hkeys : List.Forall₂ (d.YieldsForeignKey m) (m.fields.filter Field.hasForeignKey) foreignKeys) :
    ((key.map Constraint.primaryKey).toList ++ unique ++ checks ++ foreignKeys).countP
      Constraint.isPrimaryKey = key.toList.length := by
  have hunique : unique.countP Constraint.isPrimaryKey = 0 := by
    apply countP_isPrimaryKey_eq_zero _ hunique
    rintro a _ ⟨list, columns, _, _, _, rfl⟩
    rfl
  have hchecks : checks.countP Constraint.isPrimaryKey = 0 := by
    apply countP_isPrimaryKey_eq_zero _ hchecks
    rintro a _ ⟨check, _, rfl⟩
    rfl
  have hkeys : foreignKeys.countP Constraint.isPrimaryKey = 0 := by
    apply countP_isPrimaryKey_eq_zero _ hkeys
    rintro f _ ⟨relation, target, key, _, _, rfl, _⟩
    rfl
  simp only [List.countP_append, hunique, hchecks, hkeys, Nat.add_zero]
  cases key <;> rfl

def numberedUser : Model :=
  ⟨⟨"User", .empty⟩,
    [bareField "id" "Int"
        [bareAttribute "id" .none, bareAttribute "default" (.call ⟨.autoincrement, []⟩)],
      bareField "email" "String" [bareAttribute "unique" .none, bareAttribute "index" .none],
      bareField "postId" "Int" [],
      bareField "post" "Post"
        [bareAttribute "relation" (.relation { fields := ["postId"], references := ["id"] })]],
    [bareAttribute "map" (.literal (.string "user")),
      bareAttribute "check" (.check { expression := "id > 0" }),
      bareAttribute "unique" (.fieldList { fields := ["email", "postId"] }),
      bareAttribute "index" (.fieldList { fields := ["postId"] })], .empty⟩

/-- Users whose key the database assigns, and who lead to posts. -/
def numberedUsers : Document :=
  ⟨[bareModel "Post" "post" [], .model numberedUser]⟩

end Document

end SchemaMigration
