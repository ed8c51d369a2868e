import SchemaMigration.Proofs.Plan.Composition
import SchemaMigration.Proofs.Sql.Emission

/-! # Scripts of plans

A plan is written as a script and the script is cut into statements again when it is run. Names and
strings of a document may hold anything; only SQL that the document has as it is, in checks and in
generated default values, must be self-contained. Then the script runs exactly the planned
statements.
-/

namespace SchemaMigration

open Sql (Closed Column Constraint DefaultValue Index IsClause IsStatement SelfContained Table)

/-! ## SQL that is taken over -/

/-- The SQL of a generated default value. -/
def Field.generated? (f : Field) : Option String :=
  ((f.attribute? "default").bind Attribute.call?).bind fun call =>
    if call.function = .dbgenerated then (call.literalAt? 0).bind Literal.string? else none

/-- The SQL in the checks and the generated default values of a model. -/
def Model.rawSql (m : Model) : List String :=
  (m.attributesNamed "check").filterMap (fun a => a.check?.map CheckArgs.expression)
    ++ m.fields.filterMap Field.generated?

/-- The SQL that the plans for a document take over as it is. -/
def Document.rawSql (d : Document) : List String :=
  d.models.flatMap Model.rawSql

/-- The SQL that the statement of a change takes over as it is. -/
def Change.rawSql : Change → List String
  | .createTable _ table => table.rawSql
  | .addColumn _ column => column.rawSql?.toList
  | .dropTable .. | .createIndex _ | .dropIndex _ => []

namespace Document

variable {d : Document} {m : Model} {f : Field}

theorem literalDefault_rawSql? {literal : Literal} {value : DefaultValue}
    (h : d.literalDefault f literal = .ok value) : value.rawSql? = none := by
  cases literal with
  | ident name =>
      simp only [literalDefault] at h
      split at h
      · simp at h
      · split at h
        · obtain rfl := Except.ok.inj h
          rfl
        · simp at h
  | _ =>
      obtain rfl := Except.ok.inj h
      rfl

/-- A default value takes over only SQL that is generated. -/
theorem generated?_of_defaultValue {value : DefaultValue} {raw : String}
    (h : d.defaultValue f = .ok (some value)) (hraw : value.rawSql? = some raw) :
    f.generated? = some raw := by
  unfold defaultValue at h
  split at h
  · simp at h
  next a ha =>
    split at h
    next call hcall =>
      -- Of the functions only `dbgenerated` has raw SQL for a default.
      unfold FunctionCall.default at h
      cases hfunction : call.function with
      | dbgenerated =>
          simp only [hfunction] at h
          split at h
          next sql hliteral =>
            obtain rfl := Option.some.inj (Except.ok.inj h)
            obtain rfl := Option.some.inj hraw
            simp [Field.generated?, ha, Attribute.call?, hcall, hfunction, hliteral,
              Literal.string?]
          · simp at h
      | autoincrement | sequence | auto => simp [hfunction] at h
      | now | uuid | cuid | nanoid =>
          simp only [hfunction, Except.ok.injEq, Option.some.injEq] at h
          subst h
          simp [DefaultValue.rawSql?] at hraw
    next literal _ =>
      obtain ⟨value', hvalue, heq⟩ := map_eq_ok_iff.mp h
      obtain rfl := Option.some.inj heq
      rw [literalDefault_rawSql? hvalue] at hraw
      simp at hraw
    · simp at h

theorem generated?_of_plainColumn {column : Column} {raw : String}
    (h : d.plainColumn f = .ok column) (hraw : column.rawSql? = some raw) :
    f.generated? = some raw := by
  obtain ⟨_, default, hdefault, rfl⟩ := plainColumn_eq_ok_iff.mp h
  obtain ⟨value, rfl, hvalue⟩ := Option.bind_eq_some_iff.mp hraw
  exact generated?_of_defaultValue hdefault hvalue

/-- A constraint takes over only the SQL of its model's checks. -/
theorem mem_rawSql_of_hasConstraint {constraint : Constraint} (h : d.HasConstraint m constraint)
    {raw : String} (hraw : constraint.rawSql? = some raw) : raw ∈ m.rawSql := by
  cases h with
  | primaryKey _ | unique _ _ => simp [Constraint.rawSql?] at hraw
  | check ha hargs =>
      obtain rfl := Option.some.inj hraw
      exact List.mem_append_left _ (List.mem_filterMap.mpr ⟨_, ha, by simp [hargs]⟩)
  | foreignKey _ hkey =>
      obtain ⟨_, _, _, _, _, _, _, _, _, rfl⟩ := foreignKey_eq_ok_some_iff.mp hkey
      simp [Constraint.rawSql?] at hraw

/-- A table takes over only SQL of its model. -/
theorem mem_rawSql_of_table {table : Table} (h : d.table m = .ok table) {raw : String}
    (hraw : raw ∈ table.rawSql) : raw ∈ m.rawSql := by
  simp only [Table.rawSql, List.mem_append, List.mem_filterMap] at hraw
  rcases hraw with ⟨column, hcolumn, hraw⟩ | ⟨constraint, hconstraint, hraw⟩
  · obtain ⟨columns, _, _, hcolumns, _, _, _, rfl⟩ := table_eq_ok_iff.mp h
    obtain ⟨f, hf, hfield⟩ := exists_of_mem_right (columns_eq_ok_iff.mp hcolumns) hcolumn
    obtain ⟨plain, hplain, rfl⟩ := column_eq_ok_iff.mp hfield
    have hgenerated := generated?_of_plainColumn hplain hraw
    exact List.mem_append_right _
      (List.mem_filterMap.mpr ⟨f, (mem_columnFields.mp hf).1, hgenerated⟩)
  · exact mem_rawSql_of_hasConstraint (hasConstraint_of_table h hconstraint) hraw

/-- The statements of a plan take over only SQL of the new document. -/
theorem mem_rawSql_of_brings {old new : Document} {change : Change} (h : old.Brings new change)
    {raw : String} (hraw : raw ∈ change.rawSql) : raw ∈ new.rawSql := by
  cases h with
  | createTable hm _ htable =>
      exact List.mem_flatMap.mpr ⟨_, hm, mem_rawSql_of_table htable hraw⟩
  | addColumn hadds hcolumn =>
      have hgenerated := generated?_of_plainColumn (addedColumn_eq_ok_iff.mp hcolumn)
        (Option.mem_toList.mp hraw)
      refine List.mem_flatMap.mpr ⟨_, hadds.1.2.1, List.mem_append_right _ ?_⟩
      exact List.mem_filterMap.mpr ⟨_, hadds.2.1, hgenerated⟩
  | _ => simp [Change.rawSql] at hraw

end Document

/-! ## Statements of changes -/

namespace Change

/-- The statement of a change without the semicolon at its end. -/
def body (change : Change) : String :=
  String.ofList change.sql.toList.dropLast

variable {change : Change}

theorem body_eq {s : String} (h : change.sql = s ++ ";") : change.body = s := by
  have hlast : (s ++ ";").toList.dropLast = s.toList := by simp
  rw [body, h, hlast, String.ofList_toList]

/-- What stands before the semicolon of a change is a statement, wherever it stands in a script. -/
theorem exists_isStatement (h : ∀ raw ∈ change.rawSql, SelfContained raw) :
    ∃ s, change.sql = s ++ ";" ∧ IsStatement s := by
  cases change with
  | createTable model table =>
      have hname := (Sql.isClause_quoteName table.name).closed
      have hclauses : Closed (",\n    ".intercalate table.clauses) :=
        Closed.intercalate (by decide) (Table.closed_clauses h)
      refine ⟨"CREATE TABLE " ++ (Sql.quoteName table.name ++ (" (\n    "
        ++ (",\n    ".intercalate table.clauses ++ "\n)"))), ?_, ?_⟩
      · have hend : "\n)" ++ ";" = "\n);" := rfl
        simp only [← String.append_assoc]
        rw [String.append_assoc, hend]
        rfl
      · exact .append (by decide) (by decide) (.append hname (.append (by decide)
          (.append hclauses (by decide))))
  | dropTable model table =>
      refine ⟨"DROP TABLE IF EXISTS " ++ Sql.quoteName table, rfl, ?_⟩
      exact .append (by decide) (by decide) (Sql.isClause_quoteName table)
  | addColumn table column =>
      have hname := (Sql.isClause_quoteName table).closed
      have hcolumn : IsClause column.sql :=
        Column.isClause_sql fun raw hraw => h raw (Option.mem_toList.mpr hraw)
      refine ⟨"ALTER TABLE " ++ (Sql.quoteName table ++ (" ADD COLUMN " ++ column.sql)), ?_, ?_⟩
      · simp only [← String.append_assoc]
        rfl
      · exact .append (by decide) (by decide) (.append hname (.append (by decide) hcolumn))
  | createIndex index =>
      have hname := (Sql.isClause_quoteName index.name).closed
      have htable := (Sql.isClause_quoteName index.table).closed
      have hcolumns := Sql.closed_quoteNames index.columns
      have hunique : Closed (if index.isUnique then "UNIQUE " else "") := by split <;> decide
      refine ⟨"CREATE " ++ ((if index.isUnique then "UNIQUE " else "") ++ ("INDEX "
        ++ (Sql.quoteName index.name ++ (" ON " ++ (Sql.quoteName index.table ++ (" ("
          ++ (Sql.quoteNames index.columns ++ ")"))))))), ?_, ?_⟩
      · have hend : ")" ++ ";" = ");" := rfl
        simp only [← String.append_assoc]
        rw [String.append_assoc, hend]
        rfl
      · exact .append (by decide) (by decide) (.append hunique (.append (by decide)
          (.append hname (.append (by decide) (.append htable (.append (by decide)
            (.append hcolumns (by decide))))))))
  | dropIndex index =>
      refine ⟨"DROP INDEX IF EXISTS " ++ Sql.quoteName index.name, rfl, ?_⟩
      exact .append (by decide) (by decide) (Sql.isClause_quoteName index.name)

theorem isStatement_body (h : ∀ raw ∈ change.rawSql, SelfContained raw) :
    IsStatement change.body := by
  obtain ⟨s, hsql, hs⟩ := exists_isStatement h
  rwa [body_eq hsql]

theorem body_append (h : ∀ raw ∈ change.rawSql, SelfContained raw) :
    change.body ++ ";" = change.sql := by
  obtain ⟨s, hsql, _⟩ := exists_isStatement h
  rw [body_eq hsql, hsql]

/-- The comment line of a script. -/
def header (name : String) : String :=
  "-- Migration: " ++ headerText name

/-- The comment of a script is one line, whatever the name of the migration holds: it has no control
characters. -/
theorem isControl_header (name : String) :
    ∀ c ∈ (header name).toList, Text.isControl c = false := by
  intro c hc
  have htext : header name = "-- Migration: "
      ++ String.ofList (name.toList.map fun c => if Text.isControl c then ' ' else c) := rfl
  rw [htext, String.toList_append, List.mem_append] at hc
  rcases hc with hc | hc
  · have hlead : ("-- Migration: ".toList.all fun c => !Text.isControl c) = true := by decide
    simpa using List.all_eq_true.mp hlead c hc
  · rw [String.toList_ofList] at hc
    obtain ⟨d, _, rfl⟩ := List.mem_map.mp hc
    split
    · decide
    next hd => simpa using hd

/-- A script of statements is cut into the statements of its changes. -/
theorem statements_script {changes : List Change}
    (h : ∀ change ∈ changes, ∀ raw ∈ change.rawSql, SelfContained raw) (name : String) :
    Sql.statements (script name changes) =
      (changes.map body).modifyHead (header name ++ "\n\n" ++ ·) := by
  have hcomment : header name = "--" ++ (" Migration: " ++ headerText name) := by
    rw [← String.append_assoc]
    rfl
  have hline : '\n' ∉ (" Migration: " ++ headerText name).toList := by
    intro hmem
    have hcontrol := isControl_header name '\n' (by
      rw [hcomment, String.toList_append]
      exact List.mem_append_right _ hmem)
    revert hcontrol
    decide
  have hsql : changes.map sql = (changes.map body).map (· ++ ";") := by
    rw [List.map_map]
    exact List.map_congr_left fun change hchange => (body_append (h change hchange)).symm
  have hbodies : ∀ s ∈ changes.map body, IsStatement s := by
    intro s hs
    obtain ⟨change, hchange, rfl⟩ := List.mem_map.mp hs
    exact isStatement_body (h change hchange)
  have hscript : script name changes =
      header name ++ "\n\n" ++ "\n\n".intercalate (changes.map sql) ++ "\n" := rfl
  rw [hscript, hcomment, hsql]
  exact Sql.statements_script hline hbodies

end Change

namespace Document

/-- The script of a plan runs exactly the planned changes, one statement for each and in order: the
statement of the change without its semicolon, the first one behind the comment line. -/
theorem statements_of_difference {old new : Document} {changes : List Change}
    (hchanges : old.difference new = .ok changes) (hraw : ∀ raw ∈ new.rawSql, SelfContained raw)
    (name : String) :
    Sql.statements (Change.script name changes) =
        (changes.map Change.body).modifyHead (Change.header name ++ "\n\n" ++ ·) ∧
      (∀ change ∈ changes, change.body ++ ";" = change.sql) ∧
      ∀ c ∈ (Change.header name).toList, Text.isControl c = false := by
  have hself : ∀ change ∈ changes, ∀ raw ∈ change.rawSql, SelfContained raw :=
    fun change hchange raw hmem =>
      hraw raw (mem_rawSql_of_brings (brings_of_mem_difference hchanges hchange) hmem)
  refine ⟨Change.statements_script hself name, fun change hchange => ?_,
    Change.isControl_header name⟩
  exact Change.body_append (hself change hchange)

/-- A model whose column, default value and check hold quotes, semicolons and comment marks. -/
def notes : Document :=
  ⟨[.model
    { name := ⟨"Note", ⟨0, 0⟩⟩
      fields :=
        [{ name := ⟨"text", ⟨0, 0⟩⟩, type := ⟨"String", false, false⟩, span := ⟨0, 0⟩
           attributes :=
            [⟨⟨"map", ⟨0, 0⟩⟩, .literal (.string "te\"xt; --"), ⟨0, 0⟩⟩,
             ⟨⟨"default", ⟨0, 0⟩⟩, .literal (.string "it's; /* so"), ⟨0, 0⟩⟩,
             ⟨⟨"index", ⟨0, 0⟩⟩, .none, ⟨0, 0⟩⟩] }]
      attributes :=
        [⟨⟨"map", ⟨0, 0⟩⟩, .literal (.string "note"), ⟨0, 0⟩⟩,
         ⟨⟨"check", ⟨0, 0⟩⟩, .check { expression := "1 <> ';' /* ; */" }, ⟨0, 0⟩⟩]
      span := ⟨0, 0⟩ }]⟩

/-- The script that creates the notes has two statements, under a name that ends a line. -/
theorem statements_of_notes :
    (∀ raw ∈ notes.rawSql, SelfContained raw) ∧
      ∃ changes, Document.difference {} notes = .ok changes ∧
        Sql.statements (Change.script "first\n; DROP" changes) =
          ["-- Migration: first ; DROP\n\nCREATE TABLE \"note\" (\n    \"te\"\"xt; --\" TEXT NOT NULL "
              ++ "DEFAULT 'it''s; /* so',\n    CHECK (1 <> ';' /* ; */)\n)",
            "CREATE INDEX \"idx_note_te\"\"xt; --\" ON \"note\" (\"te\"\"xt; --\")"] := by
  have hraw : ∀ raw ∈ notes.rawSql, SelfContained raw := by decide
  have hplan : ((Document.difference {} notes).map (List.map Change.body)).toOption =
      some ["CREATE TABLE \"note\" (\n    \"te\"\"xt; --\" TEXT NOT NULL "
          ++ "DEFAULT 'it''s; /* so',\n    CHECK (1 <> ';' /* ; */)\n)",
        "CREATE INDEX \"idx_note_te\"\"xt; --\" ON \"note\" (\"te\"\"xt; --\")"] := by
    decide +kernel
  cases hchanges : Document.difference {} notes with
  | error e => simp [hchanges, Except.map, Except.toOption] at hplan
  | ok changes =>
      have hbodies := Option.some.inj (hchanges ▸ hplan)
      refine ⟨hraw, changes, rfl, ?_⟩
      rw [(statements_of_difference hchanges hraw "first\n; DROP").1, hbodies]
      decide +kernel

end Document

end SchemaMigration
