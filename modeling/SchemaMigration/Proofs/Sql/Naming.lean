import SchemaMigration.Proofs.Sql.Segment

/-! # Names in definitions

The names that a definition mentions, in the order of its text, and the same definition with other
names. In the text of a definition names stand in double quotes only.
-/

namespace SchemaMigration.Sql

/-! ## Definitions with other names -/

section Rename

variable (φ : String → String)

def Column.names (c : Column) : List String :=
  c.name :: if c.isUnique then c.uniqueName.toList else []

def Column.rename (c : Column) : Column :=
  { c with name := φ c.name, uniqueName := c.uniqueName.map φ }

def ForeignKey.names (k : ForeignKey) : List String :=
  k.columns ++ k.table :: k.references

def ForeignKey.rename (k : ForeignKey) : ForeignKey :=
  { k with columns := k.columns.map φ, table := φ k.table, references := k.references.map φ }

def Constraint.names : Constraint → List String
  | .primaryKey columns => columns
  | .unique name columns => name.toList ++ columns
  | .check name _ => name.toList
  | .foreignKey name key => name.toList ++ key.names

def Constraint.rename : Constraint → Constraint
  | .primaryKey columns => .primaryKey (columns.map φ)
  | .unique name columns => .unique (name.map φ) (columns.map φ)
  | .check name expression => .check (name.map φ) expression
  | .foreignKey name key => .foreignKey (name.map φ) (key.rename φ)

def Table.names (t : Table) : List String :=
  t.name :: (t.columns.flatMap Column.names ++ t.constraints.flatMap Constraint.names)

def Table.rename (t : Table) : Table :=
  ⟨φ t.name, t.columns.map (Column.rename φ), t.constraints.map (Constraint.rename φ)⟩

def Index.rename (i : Index) : Index :=
  { i with name := φ i.name, table := φ i.table, columns := i.columns.map φ }

end Rename

@[simp] theorem Column.rename_id (c : Column) : c.rename id = c := by
  simp [Column.rename]

@[simp] theorem ForeignKey.rename_id (k : ForeignKey) : k.rename id = k := by
  simp [ForeignKey.rename]

@[simp] theorem Constraint.rename_id (constraint : Constraint) : constraint.rename id = constraint := by
  cases constraint <;> simp [Constraint.rename]

@[simp] theorem Table.rename_id (t : Table) : t.rename id = t := by
  simp [Table.rename, List.map_id'']

@[simp] theorem Index.rename_id (i : Index) : i.rename id = i := by
  simp [Index.rename]

/-! ## Columns -/

theorem quotesNames_constraintName (name : Option String) :
    QuotesNames (fun φ => constraintName (name.map φ)) name.toList := by
  cases name with
  | none => exact .plain ""
  | some name => exact ((QuotesNames.name name).lead "CONSTRAINT ").trail " " (by decide)

theorem DefaultValue.quotesNames (value : DefaultValue) : QuotesNames (fun _ => value.sql) [] := by
  cases value with
  | text value => exact .text value
  | _ => exact .plain _

theorem Column.quotesNames (c : Column) : QuotesNames (fun φ => (c.rename φ).sql) c.names := by
  have htype : isSpacer c.type.sql = true := by cases c.type <;> decide
  have htyped : QuotesNames (fun φ => quoteName (φ c.name) ++ " " ++ c.type.sql) [c.name] :=
    ((QuotesNames.name c.name).trail " " (by decide)).trail _ htype
  have hkept := (htyped.trail_optional c.isAssignedKey " PRIMARY KEY AUTOINCREMENT"
    (by decide)).trail_optional c.isRequired " NOT NULL" (by decide)
  have hunique : QuotesNames (fun φ => quoteName (φ c.name) ++ " " ++ c.type.sql
      ++ (if c.isAssignedKey then " PRIMARY KEY AUTOINCREMENT" else "")
      ++ (if c.isRequired then " NOT NULL" else "")
      ++ (if c.isUnique then " " ++ constraintName (c.uniqueName.map φ) ++ "UNIQUE" else ""))
      c.names := by
    unfold Column.names
    cases c.isUnique with
    | false => simpa using hkept
    | true =>
        have hnamed := hkept.append " " (by decide)
          ((quotesNames_constraintName c.uniqueName).trail "UNIQUE" (by decide))
        simpa [String.append_assoc] using hnamed
  cases hdefault : c.default with
  | none => simpa [Column.sql, Column.rename, hdefault] using hunique
  | some value =>
      have hvalue := hunique.append " DEFAULT " (by decide) value.quotesNames
      simpa [Column.sql, Column.rename, hdefault, String.append_assoc] using hvalue

/-! ## Constraints -/

theorem quotesNames_quoteNames (names : List String) :
    QuotesNames (fun φ => quoteNames (names.map φ)) names := by
  have hitem : ∀ n ∈ names, QuotesNames (fun φ => quoteName (φ n)) [n] := fun n _ => .name n
  have hrow := QuotesNames.intercalate ", " (by decide) hitem
  simpa [quoteNames, Function.comp_def] using hrow

/-- A referential action begins with a blank, so it may stand behind anything. -/
theorem QuotesNames.trail_actionSql {sql : (String → String) → String} {names : List String}
    (event : String) (action : Option ReferentialAction) (h : QuotesNames sql names) :
    QuotesNames (fun φ => sql φ ++ actionSql event action) names := by
  cases action with
  | none => simpa [actionSql] using h
  | some action => exact h.trail _ (by simp [isSpacer, actionSql])

/-- A foreign key may stand behind anything too. -/
theorem QuotesNames.append_foreignKey {sql : (String → String) → String} {names : List String}
    (h : QuotesNames sql names) (k : ForeignKey) :
    QuotesNames (fun φ => sql φ ++ (k.rename φ).sql) (names ++ k.names) := by
  have htable := (QuotesNames.name k.table).append "(" (by decide)
    (quotesNames_quoteNames k.references)
  have hkeys := (quotesNames_quoteNames k.columns).append ") REFERENCES " (by decide) htable
  have hclosed := (h.append "FOREIGN KEY (" (by decide) hkeys).trail ")" (by decide)
  have hactions := (hclosed.trail_actionSql "DELETE" k.onDelete).trail_actionSql "UPDATE" k.onUpdate
  unfold ForeignKey.sql
  simp only [String.append_assoc] at hactions ⊢
  exact hactions

theorem Constraint.quotesNames (constraint : Constraint) :
    QuotesNames (fun φ => (constraint.rename φ).sql) constraint.names := by
  cases constraint with
  | primaryKey columns =>
      exact ((quotesNames_quoteNames columns).lead "PRIMARY KEY (").trail ")" (by decide)
  | unique name columns =>
      exact ((quotesNames_constraintName name).append "UNIQUE (" (by decide)
        (quotesNames_quoteNames columns)).trail ")" (by decide)
  | check name expression =>
      have hcheck := ((quotesNames_constraintName name).append "CHECK (" (by decide)
        (.plain expression)).trail ")" (by decide)
      simpa [Constraint.sql, Constraint.rename, Constraint.names] using hcheck
  | foreignKey name key => exact (quotesNames_constraintName name).append_foreignKey key

/-! ## Tables and indexes -/

theorem Table.quotesNames_clauses (t : Table) :
    QuotesNames (fun φ => ",\n    ".intercalate (t.rename φ).clauses)
      (t.columns.flatMap Column.names ++ t.constraints.flatMap Constraint.names) := by
  let clauses : List (Column ⊕ Constraint) := t.columns.map .inl ++ t.constraints.map .inr
  let sql (φ : String → String) : Column ⊕ Constraint → String :=
    Sum.elim (fun c => (c.rename φ).sql) fun constraint => (constraint.rename φ).sql
  have hitem : ∀ clause ∈ clauses, QuotesNames (fun φ => sql φ clause)
      (Sum.elim Column.names Constraint.names clause) := by
    rintro (c | constraint) -
    · exact c.quotesNames
    · exact constraint.quotesNames
  have hrow := QuotesNames.intercalate ",\n    " (by decide) hitem
  simpa [clauses, sql, Table.clauses, Table.rename, Function.comp_def, List.flatMap_map] using hrow

theorem Table.quotesNames_createSql (t : Table) :
    QuotesNames (fun φ => (t.rename φ).createSql) t.names := by
  have hnamed := (QuotesNames.name t.name).lead "CREATE TABLE "
  exact (hnamed.append " (\n    " (by decide) t.quotesNames_clauses).trail "\n);" (by decide)

theorem quotesNames_dropTableSql (table : String) :
    QuotesNames (fun φ => dropTableSql (φ table)) [table] :=
  ((QuotesNames.name table).lead "DROP TABLE IF EXISTS ").trail ";" (by decide)

theorem quotesNames_addColumnSql (table : String) (column : Column) :
    QuotesNames (fun φ => addColumnSql (φ table) (column.rename φ)) (table :: column.names) :=
  (((QuotesNames.name table).lead "ALTER TABLE ").append " ADD COLUMN " (by decide)
    column.quotesNames).trail ";" (by decide)

theorem Index.quotesNames_createSql (i : Index) :
    QuotesNames (fun φ => (i.rename φ).createSql) (i.name :: i.table :: i.columns) := by
  have hcolumns := (QuotesNames.name i.table).append " (" (by decide)
    (quotesNames_quoteNames i.columns)
  have hnamed := ((QuotesNames.name i.name).append " ON " (by decide) hcolumns).trail ");"
    (by decide)
  have hcreate := hnamed.lead ("CREATE " ++ (if i.isUnique then "UNIQUE " else "") ++ "INDEX ")
  simp only [String.append_assoc, Index.createSql, Index.rename] at hcreate ⊢
  exact hcreate

theorem Index.quotesNames_dropSql (i : Index) :
    QuotesNames (fun φ => (i.rename φ).dropSql) [i.name] :=
  ((QuotesNames.name i.name).lead "DROP INDEX IF EXISTS ").trail ";" (by decide)

end SchemaMigration.Sql
