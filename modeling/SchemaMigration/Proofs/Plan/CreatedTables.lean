import SchemaMigration.Proofs.Plan.Script
import SchemaMigration.Proofs.Schema.Bare
import SchemaMigration.Proofs.Sql.CreatedNames

/-! # The tables that scripts of plans create

The tables of a script are found by its lines. In the script of a plan each statement begins a line,
so every new table is found there. What a statement takes over from a document, in quotes or as SQL,
may hold line breaks; where no line within a statement begins with `CREATE TABLE`, nothing else is
found.
-/

namespace SchemaMigration

open Sql (Column Constraint Table createdNames createdNamesFrom opensLater opensTable)
open Text (afterAnyCase? isSpace)

namespace Change

variable {change : Change} {cs rest : List Char}

/-- The name of the table that a change creates. -/
def createdTable? : Change → Option String
  | .createTable _ table => some table.name
  | .dropTable .. | .addColumn .. | .createIndex _ | .dropIndex _ => none

/-- What is read line by line of a change in a script: what follows the name of a new table, and a
statement of another kind as a whole. -/
def scanned : Change → String
  | .createTable _ table => " (\n    " ++ ",\n    ".intercalate table.clauses ++ "\n);"
  | change => change.sql

/-- No line of a change but the first one begins with `CREATE TABLE`. -/
def IsQuiet (change : Change) : Prop :=
  opensLater change.scanned.toList = false

instance (change : Change) : Decidable change.IsQuiet :=
  inferInstanceAs (Decidable (_ = _))

/-! ## Changes whose texts have one line each -/

/-- The clauses of a new table, or the statement of another change. -/
def parts : Change → List String
  | .createTable _ table => table.clauses
  | change => [change.sql]

/-- A constraint begins with its name or, without one, with what it demands. -/
theorem opensTable_named {text : List Char} (h : ∀ rest,
      ((text ++ rest).head?.all fun c => !isSpace c) = true ∧
        afterAnyCase? ['c', 'r'] (text ++ rest) = none) (name : Option String) (rest : List Char) :
    opensTable ("    ".toList ++ ((Sql.constraintName name).toList ++ (text ++ rest))) = false := by
  cases name with
  | none => exact Sql.opensTable_indented (h rest).1 (h rest).2
  | some name =>
      simp only [Sql.constraintName, String.toList_append, List.append_assoc]
      exact Sql.opensTable_indented rfl rfl

theorem opensTable_constraint (constraint : Constraint) (rest : List Char) :
    opensTable ("    ".toList ++ (constraint.sql.toList ++ rest)) = false := by
  cases constraint with
  | primaryKey columns =>
      simp only [Constraint.sql, String.toList_append, List.append_assoc]
      exact Sql.opensTable_indented rfl rfl
  | unique name columns | check name columns =>
      simp only [Constraint.sql, String.toList_append, List.append_assoc]
      exact opensTable_named (fun rest => ⟨rfl, rfl⟩) name _
  | foreignKey name key =>
      simp only [Constraint.sql, String.toList_append, List.append_assoc]
      unfold Sql.ForeignKey.sql
      simp only [String.toList_append, List.append_assoc]
      exact opensTable_named (fun rest => ⟨rfl, rfl⟩) name _

/-- No clause of a table begins with `CREATE`. -/
theorem opensTable_clause {table : Table} {clause : String} (h : clause ∈ table.clauses)
    (rest : List Char) : opensTable ("    ".toList ++ (clause.toList ++ rest)) = false := by
  rcases List.mem_append.mp h with hcolumn | hconstraint
  · obtain ⟨column, _, rfl⟩ := List.mem_map.mp hcolumn
    simp only [Column.sql, Sql.quoteName, String.toList_append, List.append_assoc]
    exact Sql.opensTable_indented rfl rfl
  · obtain ⟨constraint, _, rfl⟩ := List.mem_map.mp hconstraint
    exact opensTable_constraint constraint rest

/-- A clause of one line, on a line of its own, may be left out. -/
theorem opensLater_clause {table : Table} {clause : String} (h : clause ∈ table.clauses)
    (hline : '\n' ∉ clause.toList) (hlead : '\n' ∉ cs) (rest : List Char) :
    opensLater (cs ++ "\n    ".toList ++ clause.toList ++ rest) = opensLater rest := by
  have htext : cs ++ "\n    ".toList ++ clause.toList ++ rest =
      cs ++ '\n' :: ("    ".toList ++ (clause.toList ++ rest)) := by simp
  rw [htext, Sql.opensLater_of_line hlead, opensLater, opensTable_clause h, Bool.and_false,
    Bool.false_or, Sql.opensLater_of_line (by decide), Sql.opensLater_of_line hline]

theorem opensLater_clauses {table : Table} {clauses : List String}
    (h : ∀ clause ∈ clauses, clause ∈ table.clauses ∧ '\n' ∉ clause.toList) (rest : List Char) :
    opensLater ((clauses.flatMap fun clause => ",\n    ".toList ++ clause.toList) ++ rest) =
      opensLater rest := by
  induction clauses with
  | nil => rfl
  | cons clause clauses ih =>
      obtain ⟨hmem, hline⟩ := h clause List.mem_cons_self
      have htext : ",\n    ".toList = [','] ++ "\n    ".toList := rfl
      rw [List.flatMap_cons, List.append_assoc, htext, opensLater_clause hmem hline (by decide)]
      exact ih fun clause hclause => h clause (List.mem_cons_of_mem _ hclause)

/-- A change is quiet when the clauses of its table, or else its statement, have one line each. -/
theorem isQuiet_of_lines (h : ∀ part ∈ change.parts, '\n' ∉ part.toList) : change.IsQuiet := by
  cases change with
  | createTable model table =>
      unfold IsQuiet scanned
      rw [String.toList_append, String.toList_append]
      cases hlist : table.clauses with
      | nil => rfl
      | cons clause clauses =>
          have hclauses : ∀ clause' ∈ clause :: clauses,
              clause' ∈ table.clauses ∧ '\n' ∉ clause'.toList :=
            fun clause' hclause =>
              have hmem : clause' ∈ table.clauses := hlist ▸ hclause
              ⟨hmem, h clause' hmem⟩
          obtain ⟨hmem, hline⟩ := hclauses clause List.mem_cons_self
          have htext : " (\n    ".toList ++ (",\n    ".intercalate (clause :: clauses)).toList
              ++ "\n);".toList = " (".toList ++ "\n    ".toList ++ clause.toList ++
                ((clauses.flatMap fun clause => ",\n    ".toList ++ clause.toList)
                  ++ "\n);".toList) := by
            rw [Text.intercalate_eq_flatMap]
            simp
          rw [htext, opensLater_clause hmem hline (by decide), opensLater_clauses
            fun clause hclause => hclauses clause (List.mem_cons_of_mem _ hclause)]
          rfl
  | _ =>
      have hquiet := Sql.opensLater_of_line (h _ List.mem_cons_self) []
      rwa [List.append_nil] at hquiet

/-! ## Scans of scripts -/

theorem exists_scanned (change : Change) : ∃ s, change.scanned = s ++ ";" := by
  cases change with
  | createTable model table =>
      refine ⟨" (\n    " ++ ",\n    ".intercalate table.clauses ++ "\n)", ?_⟩
      have hend : "\n);" = "\n)" ++ ";" := rfl
      rw [scanned, hend, ← String.append_assoc]
  | dropTable model table => exact ⟨"DROP TABLE IF EXISTS " ++ Sql.quoteName table, rfl⟩
  | addColumn table column =>
      exact ⟨"ALTER TABLE " ++ Sql.quoteName table ++ " ADD COLUMN " ++ column.sql, rfl⟩
  | createIndex index =>
      refine ⟨"CREATE " ++ (if index.isUnique then "UNIQUE " else "") ++ "INDEX "
        ++ Sql.quoteName index.name ++ " ON " ++ Sql.quoteName index.table ++ " ("
        ++ Sql.quoteNames index.columns ++ ")", ?_⟩
      have hend : ");" = ")" ++ ";" := rfl
      rw [String.append_assoc, ← hend]
      rfl
  | dropIndex index => exact ⟨"DROP INDEX IF EXISTS " ++ Sql.quoteName index.name, rfl⟩

theorem opensTable_createIndex (index : Sql.Index) (rest : List Char) :
    opensTable (index.createSql.toList ++ rest) = false := by
  have hplain : ∀ cs, opensTable ("CREATE ".toList ++ ("".toList ++ ("INDEX ".toList ++ cs))) =
      false := fun _ => rfl
  have hunique : ∀ cs, opensTable ("CREATE ".toList ++ ("UNIQUE ".toList
      ++ ("INDEX ".toList ++ cs))) = false := fun _ => rfl
  unfold Sql.Index.createSql
  simp only [String.toList_append, List.append_assoc]
  cases index.isUnique with
  | false => exact hplain _
  | true => exact hunique _

/-- Only a change that creates a table has a statement that begins with `CREATE TABLE`. -/
theorem opensTable_sql (h : change.createdTable? = none) (rest : List Char) :
    opensTable (change.sql.toList ++ rest) = false := by
  cases change with
  | createTable model table => cases h
  | dropTable model table =>
      unfold sql Sql.dropTableSql
      simp only [String.toList_append, List.append_assoc]
      rfl
  | addColumn table column =>
      unfold sql Sql.addColumnSql
      simp only [String.toList_append, List.append_assoc]
      rfl
  | createIndex index => exact opensTable_createIndex index rest
  | dropIndex index =>
      unfold sql Sql.Index.dropSql
      simp only [String.toList_append, List.append_assoc]
      rfl

theorem exists_createTable {name : String} (h : change.createdTable? = some name) :
    ∃ model table, change = .createTable model table ∧ table.name = name := by
  cases change with
  | createTable model table => exact ⟨model, table, rfl, Option.some.inj h⟩
  | _ => cases h

theorem scanned_eq_sql (h : change.createdTable? = none) : change.scanned = change.sql := by
  cases change with
  | createTable model table => cases h
  | _ => rfl

/-- A quiet change in a script gives the table that it creates, unless its name is empty. -/
theorem createdNamesFrom_sql (h : change.IsQuiet) (rest : List Char) :
    createdNamesFrom 0 true ('\n' :: (change.sql.toList ++ rest)) =
      change.createdTable?.toList.filter (· ≠ "") ++ createdNamesFrom 0 false rest := by
  obtain ⟨s, hs⟩ := exists_scanned change
  have hend : change.scanned.toList = s.toList ++ [';'] := by
    rw [hs, String.toList_append]
    rfl
  have hquiet : opensLater (s.toList ++ [';']) = false := hend ▸ h
  have hscanned : createdNamesFrom 0 false (change.scanned.toList ++ rest) =
      createdNamesFrom 0 false rest := by
    rw [hend, List.append_assoc]
    exact Sql.createdNamesFrom_of_not_opensLater hquiet
  cases hcreated : change.createdTable? with
  | some name =>
      obtain ⟨model, table, rfl, rfl⟩ := exists_createTable hcreated
      have htext : (Change.createTable model table).sql.toList ++ rest =
          "CREATE TABLE ".toList ++ (Sql.quoteName table.name).toList ++
            ((Change.createTable model table).scanned.toList ++ rest) := by
        unfold sql scanned Table.createSql
        simp only [String.toList_append, List.append_assoc]
      have hhead : ((Change.createTable model table).scanned.toList ++ rest).head? ≠ some '"' := by
        unfold scanned
        simp
      rw [htext, Sql.createdNamesFrom_createTable _ hhead, hscanned]
      rfl
  | none =>
      have hopens := opensTable_sql hcreated rest
      rw [scanned_eq_sql hcreated] at hscanned
      have hblank : opensTable ('\n' :: (change.sql.toList ++ rest)) = false := hopens
      rw [Sql.createdNamesFrom_of_createdTable (Sql.createdTable_of_not_opensTable hblank),
        createdNamesFrom, beq_self_eq_true,
        Sql.createdNamesFrom_of_createdTable (Sql.createdTable_of_not_opensTable hopens), hscanned]
      rfl

/-- Quiet changes below an empty line each give the tables that they create. -/
theorem createdNamesFrom_changes {changes : List Change} (h : ∀ change ∈ changes, change.IsQuiet)
    (rest : List Char) :
    createdNamesFrom 0 false
        ((changes.flatMap fun change => "\n\n".toList ++ change.sql.toList) ++ rest) =
      (changes.filterMap createdTable?).filter (· ≠ "") ++ createdNamesFrom 0 false rest := by
  induction changes with
  | nil => rfl
  | cons change changes ih =>
      have hchange := createdNamesFrom_sql (h change List.mem_cons_self)
        ((changes.flatMap fun change => "\n\n".toList ++ change.sql.toList) ++ rest)
      rw [ih fun c hc => h c (List.mem_cons_of_mem _ hc)] at hchange
      have hfound : (change :: changes).filterMap createdTable? =
          change.createdTable?.toList ++ changes.filterMap createdTable? := by
        cases hcreated : change.createdTable? with
        | none => rw [List.filterMap_cons_none hcreated, Option.toList_none, List.nil_append]
        | some name => rw [List.filterMap_cons_some hcreated, Option.toList_some,
            List.singleton_append]
      rw [hfound, List.filter_append, List.append_assoc, ← hchange, List.flatMap_cons,
        List.append_assoc, List.append_assoc]
      rfl

/-- The comment line of a script names no table, whatever the migration is called. -/
theorem createdNamesFrom_header (name : String) (rest : List Char) :
    createdNamesFrom 0 true ((header name).toList ++ rest) = createdNamesFrom 0 false rest := by
  have hline : '\n' ∉ (header name).toList := by
    intro hmem
    have hcontrol := isControl_header name '\n' hmem
    revert hcontrol
    decide
  have hnone : Sql.createdTable ((header name).toList ++ rest) = none := by
    unfold header
    rw [String.toList_append, List.append_assoc]
    rfl
  rw [Sql.createdNamesFrom_of_createdTable hnone, Sql.createdNamesFrom_of_line hline]

/-- The script of quiet changes names the tables that they create, but none with an empty name. -/
theorem createdNames_script {changes : List Change} (h : ∀ change ∈ changes, change.IsQuiet)
    (name : String) :
    createdNames (script name changes) =
      (changes.filterMap createdTable?).filter (· ≠ "") := by
  have hscript : (script name changes).toList = (header name).toList ++
      ("\n\n".toList ++ ("\n\n".intercalate (changes.map sql)).toList ++ ['\n']) := by
    have htext : script name changes =
        header name ++ "\n\n" ++ "\n\n".intercalate (changes.map sql) ++ "\n" := rfl
    rw [htext]
    simp
  unfold createdNames
  rw [hscript, createdNamesFrom_header]
  cases changes with
  | nil => rfl
  | cons change changes =>
      have hbody : "\n\n".toList ++ ("\n\n".intercalate ((change :: changes).map sql)).toList =
          (change :: changes).flatMap fun change => "\n\n".toList ++ change.sql.toList := by
        rw [List.map_cons, Text.intercalate_eq_flatMap, List.flatMap_cons, List.flatMap_map,
          List.append_assoc]
      rw [hbody, createdNamesFrom_changes h, show createdNamesFrom 0 false ['\n'] = [] from rfl,
        List.append_nil]

/-- The tables that plans create, each once and in the order of its first creation, but none whose
name is empty. -/
def created (plans : List (String × List Change)) : List String :=
  (((plans.flatMap (·.2)).filterMap createdTable?).filter (· ≠ "")).eraseDups

/-- A reset finds exactly the tables that plans create in their scripts, when the changes are quiet. -/
theorem createdTables_scripts {plans : List (String × List Change)}
    (h : ∀ plan ∈ plans, ∀ change ∈ plan.2, change.IsQuiet) :
    Sql.createdTables (plans.map fun plan => script plan.1 plan.2) =
      created plans := by
  have hnames : (plans.map fun plan => script plan.1 plan.2).flatMap createdNames =
      ((plans.flatMap (·.2)).filterMap createdTable?).filter (· ≠ "") := by
    rw [List.flatMap_map, List.filterMap_flatMap, List.filter_flatMap]
    refine List.flatMap_congr fun plan hplan => ?_
    exact createdNames_script (h plan hplan) plan.1
  unfold Sql.createdTables created
  rw [hnames, Sql.firstOccurrences_eq_eraseDups]

/-- A note with a default text. -/
def note (text : String) : Declaration :=
  Document.bareModel "Note" "note"
    [Document.bareField "text" "String" [Document.bareAttribute "default" (.literal (.string text))]]

/-- The plans that create notes and users, drop the notes, and create them again. -/
def notePlans : Except SchemaError (List (String × List Change)) := do
  let users := Document.bareModel "User" "user" []
  let first ← Document.difference {} ⟨[note "a\nb", users]⟩
  let second ← Document.difference ⟨[note "a\nb", users]⟩ ⟨[users]⟩
  let third ← Document.difference ⟨[users]⟩ ⟨[users, note "a\nb"]⟩
  return [("init", first), ("no notes", second), ("notes", third)]

/-- Two tables are created, one of them twice. When a default text has a line that begins with `CREATE
TABLE`, the table that this line names would be dropped as well. -/
theorem createdTables_scripts_of_notes :
    (∃ plans, notePlans = .ok plans ∧
      Sql.createdTables (plans.map fun plan => script plan.1 plan.2) = ["note", "user"]) ∧
    ∃ changes, Document.difference {} ⟨[note "a\nCREATE TABLE b"]⟩ = .ok changes ∧
      created [("init", changes)] = ["note"] ∧
      Sql.createdTables [script "init" changes] = ["note", "b"] := by
  constructor
  · have hcreated : notePlans.toOption.map created = some ["note", "user"] := by decide +kernel
    have hquiet : notePlans.toOption.map (fun plans =>
        decide (∀ plan ∈ plans, ∀ change ∈ plan.2, change.IsQuiet)) = some true := by
      decide +kernel
    obtain ⟨plans, hplans, hnames⟩ := toOption_map_eq_some_iff.mp hcreated
    obtain ⟨_, hsame, hall⟩ := toOption_map_eq_some_iff.mp hquiet
    obtain rfl := Except.ok.inj (hplans.symm.trans hsame)
    refine ⟨plans, hplans, ?_⟩
    rw [createdTables_scripts (of_decide_eq_true hall), hnames]
  · have hlisted : (Document.difference {} ⟨[note "a\nCREATE TABLE b"]⟩).toOption.map
        (fun changes => (created [("init", changes)],
          Sql.createdTables [script "init" changes])) = some (["note"], ["note", "b"]) := by
      decide +kernel
    obtain ⟨changes, hplan, hboth⟩ := toOption_map_eq_some_iff.mp hlisted
    exact ⟨changes, hplan, Prod.mk.inj hboth⟩

end Change

end SchemaMigration
