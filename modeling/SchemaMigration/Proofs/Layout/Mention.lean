import SchemaMigration.Proofs.Layout.Table
import SchemaMigration.Proofs.Schema.Bare
import SchemaMigration.Proofs.Schema.Validity

/-! # Columns that are mentioned

Keys, unique constraints, foreign keys and indexes mention columns by the fields that they list. In
a valid document every field in a list is declared, but it need not be a column: fields that lead to
other models and lists of values have none. The statements for a model mention only columns that
exist exactly when all fields that they list have one.
-/

namespace SchemaMigration

open Sql (Column Constraint ForeignKey Index Table)

/-- The columns of its own table that a constraint mentions. -/
def Sql.Constraint.columns : Constraint → List String
  | .primaryKey columns => columns
  | .unique _ columns => columns
  | .check _ _ => []
  | .foreignKey _ key => key.columns

/-- The fields of its own model that a relation lists. -/
def Field.localNames (f : Field) : List String :=
  (f.relation?.map RelationArgs.fields).getD []

namespace Model

/-- The fields of a model with the names in a list. -/
def fieldsNamed (m : Model) (names : List String) : List Field :=
  names.filterMap m.field?

/-- The fields of the primary key that is a constraint of the table. -/
def keyFields (m : Model) : List Field :=
  match (m.attribute? "id").bind Attribute.fieldList? with
  | some list => m.fieldsNamed list.fields
  | none => if m.assignedKey?.isSome then [] else m.idFields

/-- The fields that the attributes of a name list. -/
def listed (m : Model) (label : String) : List Field :=
  (m.attributesNamed label).flatMap fun a => m.fieldsNamed (listedFields a)

/-- The fields that the constraints of a model's table list. -/
def constrained (m : Model) : List Field :=
  m.keyFields ++ m.listed "unique" ++ m.fields.flatMap fun f => m.fieldsNamed f.localNames

end Model

/-- A field has a column: it is one, or else the column of another field bears its name. -/
def Document.HasColumn (d : Document) (m : Model) (f : Field) : Prop :=
  d.isColumn f = true ∨ ∃ g ∈ d.columnFields m, g.columnName = f.columnName

instance (d : Document) (m : Model) (f : Field) : Decidable (d.HasColumn m f) :=
  inferInstanceAs (Decidable (_ ∨ _))

/-! ## Names in a list -/

namespace Model

variable {m : Model} {f : Field} {names : List String}

theorem mem_fields_of_mem_fieldsNamed (h : f ∈ m.fieldsNamed names) : f ∈ m.fields := by
  obtain ⟨name, _, hname⟩ := List.mem_filterMap.mp h
  exact mem_of_field?_eq_some hname

/-- The columns of declared fields are looked up by the names of the fields. -/
theorem map_columnNameOf (h : ∀ name ∈ names, ∃ f, m.field? name = some f) :
    names.map m.columnNameOf = (m.fieldsNamed names).map Field.columnName := by
  induction names with
  | nil => rfl
  | cons name names ih =>
      obtain ⟨f, hf⟩ := h name List.mem_cons_self
      have hrest := ih fun other hother => h other (List.mem_cons_of_mem name hother)
      rw [fieldsNamed, List.filterMap_cons_some hf, List.map_cons, List.map_cons, hrest,
        columnNameOf, hf]
      rfl

theorem mem_attributesNamed_of_attribute? {label : String} {a : Attribute}
    (h : m.attribute? label = some a) : a ∈ m.attributesNamed label := by
  have hfind : m.attributes.find? (fun a => a.name.name == label) = some a := h
  have hlabel := List.find?_some hfind
  exact List.mem_filter.mpr ⟨List.mem_of_find?_eq_some hfind, hlabel⟩

theorem mem_fields_of_mem_listed {label : String} (h : f ∈ m.listed label) : f ∈ m.fields := by
  obtain ⟨_, _, hf⟩ := List.mem_flatMap.mp h
  exact mem_fields_of_mem_fieldsNamed hf

theorem mem_fields_of_mem_constrained (h : f ∈ m.constrained) : f ∈ m.fields := by
  rcases List.mem_append.mp h with h | h
  · rcases List.mem_append.mp h with h | h
    · unfold keyFields at h
      split at h
      · exact mem_fields_of_mem_fieldsNamed h
      · split at h
        · simp at h
        · exact (List.mem_filter.mp h).1
    · exact mem_fields_of_mem_listed h
  · obtain ⟨_, _, hf⟩ := List.mem_flatMap.mp h
    exact mem_fields_of_mem_fieldsNamed hf

end Model

namespace Document

variable {d : Document} {m : Model} {f : Field}

theorem hasColumn_iff (hf : f ∈ m.fields) :
    d.HasColumn m f ↔ f.columnName ∈ (d.columnFields m).map Field.columnName := by
  rw [List.mem_map]
  refine or_iff_right_of_imp fun hcolumn => ?_
  exact ⟨f, mem_columnFields.mpr ⟨hf, hcolumn⟩, rfl⟩

/-! ## What constraints mention -/

/-- The columns of lists of fields that all are declared. -/
theorem columns_of_lists (h : d.validate = .ok ()) (hm : m ∈ d.models) {label : String}
    (hlabel : label = "index" ∨ label = "unique" ∨ label = "id") {α : Type}
    {make : FieldListArgs → α} {columns : α → List String}
    (hmake : ∀ list, columns (make list) = list.fields.map m.columnNameOf) :
    ((m.attributesNamed label).filterMap fun a => a.fieldList?.map make).flatMap columns =
      (m.listed label).map Field.columnName := by
  have hlists : ∀ attributes ⊆ m.attributesNamed label,
      (attributes.filterMap fun a => a.fieldList?.map make).flatMap columns =
        (attributes.flatMap fun a => m.fieldsNamed (Model.listedFields a)).map
          Field.columnName := by
    intro attributes hsub
    induction attributes with
    | nil => rfl
    | cons a attributes ih =>
        obtain ⟨ha, hsub⟩ := List.cons_subset.mp hsub
        have hdeclared := Model.map_columnNameOf (listedFields_of_valid h hm hlabel ha).2
        rw [List.flatMap_cons, List.map_append, ← ih hsub, ← hdeclared]
        cases hlist : a.fieldList? with
        | none => simp [hlist, Model.listedFields]
        | some list => simp [hlist, Model.listedFields, hmake]
  exact hlists _ (List.Subset.refl _)

theorem columns_of_primaryKey (h : d.validate = .ok ()) (hm : m ∈ d.models) :
    (m.primaryKey?.map Constraint.primaryKey).toList.flatMap Constraint.columns =
      m.keyFields.map Field.columnName := by
  unfold Model.primaryKey? Model.keyFields
  cases hlist : (m.attribute? "id").bind Attribute.fieldList? with
  | some list =>
      obtain ⟨a, ha, hfields⟩ := Option.bind_eq_some_iff.mp hlist
      have hnamed := Model.mem_attributesNamed_of_attribute? ha
      have hdeclared : list.fields.map m.columnNameOf =
          (m.fieldsNamed list.fields).map Field.columnName := by
        have hlisted := (listedFields_of_valid h hm (by simp) hnamed).2
        simp only [Model.listedFields, hfields, Option.map_some, Option.getD_some] at hlisted
        exact Model.map_columnNameOf hlisted
      simp [Constraint.columns, hdeclared]
  | none =>
      by_cases hassigned : m.assignedKey?.isSome = true
      · simp [hassigned]
      · by_cases hids : m.idFields = [] <;> simp [hassigned, hids, Constraint.columns]

/-- Checks mention columns in their expressions only, which are kept as written. -/
theorem columns_of_checks {checks : List Constraint} (h : m.checkConstraints = .ok checks) :
    checks.flatMap Constraint.columns = [] := by
  refine List.flatMap_eq_nil_iff.mpr fun constraint hconstraint => ?_
  obtain ⟨a, _, ha⟩ := exists_of_mem_right (mapM_eq_ok_iff.mp h) hconstraint
  split at ha
  · obtain rfl := Except.ok.inj ha
    rfl
  · simp at ha

theorem columns_of_foreignKey (h : d.validate = .ok ()) (hm : m ∈ d.models) (hf : f ∈ m.fields)
    {key : Option Constraint} (hkey : d.foreignKey m f = .ok key) :
    key.toList.flatMap Constraint.columns = (m.fieldsNamed f.localNames).map Field.columnName := by
  cases key with
  | none =>
      have hlocal : f.localNames = [] := by
        have hnone := foreignKey_eq_ok_none_iff.mp hkey
        unfold Field.localNames
        cases hrelation : f.relation? with
        | none => rfl
        | some relation =>
            simpa [Field.hasForeignKey, hrelation, RelationArgs.hasForeignKey] using hnone
      simp [hlocal, Model.fieldsNamed]
  | some constraint =>
      obtain ⟨relation, target, onDelete, onUpdate, hrelation, _, _, _, _, rfl⟩ :=
        foreignKey_eq_ok_some_iff.mp hkey
      have hdeclared : relation.fields.map m.columnNameOf =
          (m.fieldsNamed relation.fields).map Field.columnName :=
        Model.map_columnNameOf fun name hname => exists_field_of_local h hm hf hrelation hname
      simp [Constraint.columns, hdeclared, Field.localNames, hrelation]

theorem columns_of_foreignKeys (h : d.validate = .ok ()) (hm : m ∈ d.models)
    {constraints : List Constraint} (hkeys : d.foreignKeys m = .ok constraints) :
    constraints.flatMap Constraint.columns =
      (m.fields.flatMap fun f => m.fieldsNamed f.localNames).map Field.columnName := by
  obtain ⟨keys, hparts, rfl⟩ := foreignKeys_eq_ok_iff.mp hkeys
  have hfields : ∀ fields ⊆ m.fields, ∀ keys,
      List.Forall₂ (fun f key => d.foreignKey m f = .ok key) fields keys →
      (keys.filterMap id).flatMap Constraint.columns =
        (fields.flatMap fun f => m.fieldsNamed f.localNames).map Field.columnName := by
    intro fields hsub keys hkeys
    induction hkeys with
    | nil => rfl
    | @cons f key fields keys hkey _ ih =>
        obtain ⟨hf, hsub⟩ := List.cons_subset.mp hsub
        rw [List.flatMap_cons, List.map_append, ← ih hsub, ← columns_of_foreignKey h hm hf hkey]
        cases key <;> simp
  exact hfields _ (List.Subset.refl _) _ hparts

/-- The columns that the constraints of a table mention are, in order, those of the fields that
they list. -/
theorem columns_of_constraints (h : d.validate = .ok ()) (hm : m ∈ d.models) {table : Table}
    (htable : d.table m = .ok table) :
    table.constraints.flatMap Constraint.columns = m.constrained.map Field.columnName := by
  obtain ⟨_, checks, keys, _, _, hchecks, hkeys, rfl⟩ := table_eq_ok_iff.mp htable
  have hunique : m.uniqueConstraints.flatMap Constraint.columns =
      (m.listed "unique").map Field.columnName :=
    columns_of_lists h hm (by simp) fun _ => rfl
  simp only [List.flatMap_append, columns_of_primaryKey h hm, hunique, columns_of_checks hchecks,
    columns_of_foreignKeys h hm hkeys, Model.constrained, List.map_append, List.append_nil]

/-- The columns that the indexes of a model mention are, in order, those of the columns that are
marked and of the fields that they list. -/
theorem columns_of_indexes (h : d.validate = .ok ()) (hm : m ∈ d.models) :
    (d.indexes m).flatMap Index.columns =
      (((d.columnFields m).filter fun f => f.has "index") ++ m.listed "index").map
        Field.columnName := by
  have hlists : ((m.attributesNamed "index").filterMap fun a => a.fieldList?.map fun list =>
      m.index list.name (list.fields.map m.columnNameOf)).flatMap Index.columns =
        (m.listed "index").map Field.columnName :=
    columns_of_lists h hm (by simp) fun _ => rfl
  rw [indexes, List.flatMap_append, hlists, List.map_append, List.flatMap_map]
  congr 1
  exact (List.map_eq_flatMap ..).symm

/-- The columns that a foreign key refers to are, in order, those of the fields of its target that
its relation lists as referenced. -/
theorem references_of_foreignKey (h : d.validate = .ok ()) (hm : m ∈ d.models) {table : Table}
    (htable : d.table m = .ok table) {name : Option String} {key : ForeignKey}
    (hkey : .foreignKey name key ∈ table.constraints) :
    ∃ f ∈ m.fields, ∃ relation target, f.relation? = some relation ∧
      d.model? f.type.base = some target ∧ key.table = target.tableName ∧
      key.references = (target.fieldsNamed relation.references).map Field.columnName := by
  cases hasConstraint_of_table htable hkey with
  | foreignKey hf hfield =>
      obtain ⟨relation, target, _, _, hrelation, _, htarget, _, _, heq⟩ :=
        foreignKey_eq_ok_some_iff.mp hfield
      obtain ⟨target', htarget', hdeclared⟩ := exists_target_of_relation h hm hf hrelation
      obtain rfl := Option.some.inj (htarget'.symm.trans htarget)
      obtain ⟨_, rfl⟩ := Constraint.foreignKey.inj heq
      exact ⟨_, hf, relation, target', hrelation, htarget, rfl, Model.map_columnNameOf hdeclared⟩

/-! ## Mentioned columns exist -/

/-- The columns of fields are all among those of the table exactly when all the fields have one. -/
theorem hasColumn_forall_iff {fields : List Field} (hfields : ∀ f ∈ fields, f ∈ m.fields) :
    (∀ name ∈ fields.map Field.columnName, name ∈ (d.columnFields m).map Field.columnName) ↔
      ∀ f ∈ fields, d.HasColumn m f := by
  rw [List.forall_mem_map]
  exact forall₂_congr fun f hf => (hasColumn_iff (hfields f hf)).symm

/-- The constraints and indexes of a table mention only columns of the table exactly when all the
fields that they list have one. Each foreign key comes from a relation, and refers only to columns
of the table of its target exactly when all the fields that the relation lists as referenced have
one. -/
theorem mentioned_columns_of_table (h : d.validate = .ok ()) (hm : m ∈ d.models) {table : Table}
    (htable : d.table m = .ok table) :
    ((∀ name ∈ table.constraints.flatMap Constraint.columns ++ (d.indexes m).flatMap Index.columns,
        name ∈ table.columns.map Column.name) ↔
      ∀ f ∈ m.constrained ++ m.listed "index", d.HasColumn m f) ∧
    ∀ name key, .foreignKey name key ∈ table.constraints →
      ∃ f ∈ m.fields, ∃ relation target, f.relation? = some relation ∧
        d.model? f.type.base = some target ∧ key.table = target.tableName ∧
        ((∀ column ∈ key.references, column ∈ (d.columnFields target).map Field.columnName) ↔
          ∀ g ∈ target.fieldsNamed relation.references, d.HasColumn target g) := by
  constructor
  · have hmarked : ∀ f ∈ (d.columnFields m).filter fun f => f.has "index", d.HasColumn m f :=
      fun f hf => .inl (mem_columnFields.mp (List.mem_filter.mp hf).1).2
    have hdeclared : ∀ f ∈ m.constrained ++ (((d.columnFields m).filter fun f => f.has "index") ++
        m.listed "index"), f ∈ m.fields := by
      intro f hf
      simp only [List.mem_append] at hf
      rcases hf with hf | hf | hf
      · exact Model.mem_fields_of_mem_constrained hf
      · exact (mem_columnFields.mp (List.mem_filter.mp hf).1).1
      · exact Model.mem_fields_of_mem_listed hf
    rw [columns_of_constraints h hm htable, columns_of_indexes h hm, ← List.map_append,
      table_columnNames htable, hasColumn_forall_iff hdeclared]
    simp only [List.forall_mem_append]
    exact and_congr_right fun _ => and_iff_right hmarked
  · intro name key hkey
    obtain ⟨f, hf, relation, target, hrelation, htarget, hname, hreferences⟩ :=
      references_of_foreignKey h hm htable hkey
    refine ⟨f, hf, relation, target, hrelation, htarget, hname, ?_⟩
    rw [hreferences]
    exact hasColumn_forall_iff fun g hg => Model.mem_fields_of_mem_fieldsNamed hg

/-! ## Users and posts -/

def indexedUser (field : String) : Model :=
  ⟨⟨"User", .empty⟩,
    [bareField "id" "Int" [bareAttribute "id" .none], bareField "postId" "Int" [],
      bareField "post" "Post"
        [bareAttribute "relation" (.relation { fields := ["postId"], references := ["id"] })]],
    [bareAttribute "map" (.literal (.string "user")),
      bareAttribute "index" (.fieldList { fields := [field] })], .empty⟩

/-- Users that lead to posts, with an index over one of their fields. -/
def usersIndexedBy (field : String) : Document :=
  ⟨[bareModel "Post" "post" [], .model (indexedUser field)]⟩

/-- An index over the column of a post, as the foreign key to it, mentions what exists. An index
over the field that leads to the post mentions a column that the table does not have. -/
theorem mentioned_columns_of_indexed_users :
    (∃ table, (usersIndexedBy "postId").table (indexedUser "postId") = .ok table ∧
      table.columns.map Column.name = ["id", "postId"] ∧
      table.constraints =
        [.primaryKey ["id"], .foreignKey none ⟨["postId"], "post", ["id"], none, none⟩] ∧
      ∀ name ∈ table.constraints.flatMap Constraint.columns ++
          ((usersIndexedBy "postId").indexes (indexedUser "postId")).flatMap Index.columns,
        name ∈ table.columns.map Column.name) ∧
    (usersIndexedBy "post").validate = .ok () ∧
    ∃ table, (usersIndexedBy "post").table (indexedUser "post") = .ok table ∧
      ¬ ∀ name ∈ table.constraints.flatMap Constraint.columns ++
          ((usersIndexedBy "post").indexes (indexedUser "post")).flatMap Index.columns,
        name ∈ table.columns.map Column.name := by
  have hmem (field : String) : indexedUser field ∈ (usersIndexedBy field).models :=
    List.mem_cons_of_mem _ List.mem_cons_self
  refine ⟨⟨_, rfl, rfl, rfl, ?_⟩, rfl, _, rfl, ?_⟩
  · refine (mentioned_columns_of_table rfl (hmem "postId") rfl).1.mpr ?_
    decide
  · refine mt (mentioned_columns_of_table rfl (hmem "post") rfl).1.mp ?_
    decide

end Document

end SchemaMigration
