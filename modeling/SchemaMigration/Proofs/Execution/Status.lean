import SchemaMigration.Proofs.Execution.DryRun
import SchemaMigration.Proofs.Execution.Ledger

/-! # Status

The status and a run look at the files and at the ledger each on its own. They tell the same: what
the status shows as not applied is what a run would apply, and what it shows as a mismatch is what
keeps a run from applying anything.
-/

namespace SchemaMigration

open Calendar (Instant)
open Files (Tree)

variable {State : Type} {records : List Record} {migrations : List Migration}

namespace StatusEntry

theorem isApplied_ofMigration (records : List Record) (m : Migration) :
    (ofMigration records m).isApplied = (recorded? records m.name).isSome := by
  simp [isApplied, ofMigration]

theorem isMismatch_ofMigration (records : List Record) (m : Migration) :
    (ofMigration records m).isMismatch = (Manager.mismatch? records m).isSome := by
  unfold ofMigration Manager.mismatch?
  cases recorded? records m.name with
  | none => rfl
  | some record => cases hsame : record.checksum != m.checksum <;> simp [Option.filter, hsame]

/-- The states of migrations: of those in files, each as applied if it has a record, and of those
that are only recorded, in the order of their records. No record is left out. -/
structure Covers (migrations : List Migration) (records : List Record)
    (inFiles missing : List StatusEntry) : Prop where
  ofFiles : inFiles.map (fun e => (e.name, e.timestamp, e.isApplied, e.isMissing)) =
    migrations.map fun m => (m.name, m.timestamp, records.any fun r => r.name == m.name, false)
  ofRecords : missing = (records.filter fun r => ∀ m ∈ migrations, m.name ≠ r.name).map ofRecord
  flagged : ∀ e ∈ missing, e.isMissing = true ∧ e.isMismatch = false
  complete : ∀ r ∈ records, ∃ e ∈ inFiles ++ missing, e.name = r.name

theorem exists_missing_of_all (migrations : List Migration) (records : List Record) :
    ∃ missing, all migrations records = migrations.map (ofMigration records) ++ missing ∧
      Covers migrations records (migrations.map (ofMigration records)) missing := by
  have hmissing : (records.filter fun r => !migrations.any fun m => m.name == r.name) =
      records.filter fun r => ∀ m ∈ migrations, m.name ≠ r.name := by
    refine List.filter_congr fun r _ => ?_
    rw [Bool.eq_iff_iff]
    simp
  refine ⟨_, by rw [all, hmissing], ?_⟩
  constructor
  case ofFiles =>
    rw [List.map_map]
    refine List.map_congr_left fun m _ => ?_
    rw [← isSome_recorded?, ← isApplied_ofMigration]
    rfl
  case ofRecords => rfl
  case flagged =>
    intro e he
    obtain ⟨r, _, rfl⟩ := List.mem_map.mp he
    exact ⟨rfl, rfl⟩
  case complete =>
    intro r hr
    by_cases hfile : ∃ m ∈ migrations, m.name = r.name
    · obtain ⟨m, hm, hname⟩ := hfile
      exact ⟨_, List.mem_append_left _ (List.mem_map_of_mem hm), hname⟩
    · have hnone : ∀ m ∈ migrations, m.name ≠ r.name := fun m hm hname => hfile ⟨m, hm, hname⟩
      have hkept : r ∈ records.filter fun r => ∀ m ∈ migrations, m.name ≠ r.name :=
        List.mem_filter.mpr ⟨hr, decide_eq_true hnone⟩
      exact ⟨_, List.mem_append_right _ (List.mem_map_of_mem hkept), rfl⟩

end StatusEntry

namespace Manager

/-! ## A forced dry run -/

theorem mismatches_eq (records : List Record) (migrations : List Migration) :
    (mismatches records migrations).map (fun o => (o.name, o.status)) =
      ((migrations.map (StatusEntry.ofMigration records)).filter StatusEntry.isMismatch).map
        fun e => (e.name, .checksumMismatch) := by
  induction migrations with
  | nil => rfl
  | cons m migrations ih =>
      unfold mismatches at ih ⊢
      rw [List.map_cons, List.filter_cons, StatusEntry.isMismatch_ofMigration]
      cases hmismatch : mismatch? records m with
      | none =>
          rw [List.filterMap_cons_none (by rw [hmismatch]; rfl)]
          exact ih
      | some record =>
          rw [List.filterMap_cons_some (by rw [hmismatch]; rfl), List.map_cons, ih]
          rfl

theorem pending_eq (records : List Record) (migrations : List Migration) :
    ((pending migrations records).map Outcome.dryRun).map (fun o => (o.name, o.status)) =
      ((migrations.map (StatusEntry.ofMigration records)).filter fun e => !e.isApplied).map
        fun e => (e.name, .dryRun) := by
  have hpending : (pending migrations records) =
      migrations.filter fun m => !(StatusEntry.ofMigration records m).isApplied := by
    refine List.filter_congr fun m _ => ?_
    rw [StatusEntry.isApplied_ofMigration, Option.not_isSome]
  rw [hpending, List.filter_map, List.map_map, List.map_map]
  rfl

/-! ## A run that is not forced -/

theorem exists_mismatch_iff {missing : List StatusEntry}
    (hmissing : ∀ e ∈ missing, e.isMissing = true ∧ e.isMismatch = false) :
    (∃ e ∈ migrations.map (StatusEntry.ofMigration records) ++ missing, e.isMismatch = true) ↔
      ∃ m ∈ migrations, ∃ record,
        recorded? records m.name = some record ∧ record.checksum ≠ m.checksum := by
  simp only [← mismatch?_eq_some_iff, ← Option.isSome_iff_exists,
    ← StatusEntry.isMismatch_ofMigration]
  constructor
  · rintro ⟨e, he, hmismatch⟩
    rcases List.mem_append.mp he with he | he
    · obtain ⟨m, hm, rfl⟩ := List.mem_map.mp he
      exact ⟨m, hm, hmismatch⟩
    · rw [(hmissing e he).2] at hmismatch
      cases hmismatch
  · rintro ⟨m, hm, hmismatch⟩
    exact ⟨_, List.mem_append_left _ (List.mem_map_of_mem hm), hmismatch⟩

variable (manager : Manager State)

/-- A run that passes the check of the checksums gives a report. -/
theorem exists_report_of_checkMismatches (now : Instant) {options : ApplyOptions}
    {database selected : State} {outcomes : List Outcome}
    (hread : manager.ledger.records manager.executor database = (.ok records, selected))
    (hpass : checkMismatches records options.isForced migrations = .ok outcomes) :
    ∃ report after, manager.applyListed now options migrations database = (.ok report, after) := by
  simp only [applyListed, hread, applyPending, hpass]
  split
  next => exact ⟨_, _, rfl⟩
  next => exact ⟨_, _, rfl⟩

/-- A run that is not forced fails because of a checksum exactly if the status shows a mismatch. -/
theorem apply_refused_iff (now : Instant) {options : ApplyOptions}
    (hforced : options.isForced = false) {database selected : State}
    (hread : manager.ledger.records manager.executor database = (.ok records, selected)) :
    (∃ name expected actual after,
      manager.apply now options (.ok migrations) ⟨.ready, database⟩ =
        (.error (.checksumMismatch name expected actual), after)) ↔
      ∃ m ∈ migrations, ∃ record,
        recorded? records m.name = some record ∧ record.checksum ≠ m.checksum := by
  constructor
  · intro hrefused
    by_contra hnone
    have hmatch : ∀ m ∈ migrations, mismatch? records m = none := by
      intro m hm
      rw [Option.eq_none_iff_forall_ne_some]
      intro record hrecord
      exact hnone ⟨m, hm, record, mismatch?_eq_some_iff.mp hrecord⟩
    have hpass : checkMismatches records options.isForced migrations = .ok [] :=
      checkMismatches_of_none hmatch
    obtain ⟨report, after, hreport⟩ :=
      manager.exists_report_of_checkMismatches now hread hpass
    obtain ⟨name, expected, actual, _, hrefused⟩ := hrefused
    simp only [apply, whenReady, withListing, hreport] at hrefused
    cases (Prod.mk.inj hrefused).1
  · intro hmismatch
    obtain ⟨rows, hselect, hrecords⟩ := Ledger.records_eq_ok hread
    obtain ⟨_, m, _, record, _, _, _, _, hfail⟩ := exists_first_mismatch hmismatch
    rw [← hforced] at hfail
    obtain ⟨hplain, _⟩ := manager.recorded_applyListed_of_error now hselect hrecords hfail []
    refine ⟨m.name, record.checksum, m.checksum, ⟨.ready, selected⟩, ?_⟩
    simp only [apply, whenReady, withListing, hplain]

/-- What keeps the status from being told keeps every run from being made. -/
theorem apply_of_status_error {listing : Listing} {database : State} {error : MigrationError}
    {after : Managed State}
    (h : manager.status listing ⟨.ready, database⟩ = (.error error, after)) (now : Instant)
    (options : ApplyOptions) :
    manager.apply now options listing ⟨.ready, database⟩ = (.error error, after) := by
  cases listing with
  | error _ =>
      obtain ⟨herror, rfl⟩ := Prod.mk.inj h
      obtain rfl := Except.error.inj herror
      rfl
  | ok migrations =>
      simp only [status, apply, whenReady, withListing, applyListed] at h ⊢
      split at h
      next =>
        obtain ⟨herror, rfl⟩ := Prod.mk.inj h
        obtain rfl := Except.error.inj herror
        rfl
      next => cases (Prod.mk.inj h).1

/-- The status of a folder and a ledger has a state for each migration in the folder, in the order of
stamps and names, and behind them one for each record without a file, in the order of the ledger.
From the same state a forced dry run reports a mismatch for exactly the states that show one, and
behind them a dry run for exactly the files that are not applied, in the same order. Unless it is
forced, a run fails because of a checksum exactly if some state shows a mismatch. -/
theorem status_agrees {folder : Folder} {tree : Tree} (hlist : folder.list tree = .ok migrations)
    {database selected : State}
    (hread : manager.ledger.records manager.executor database = (.ok records, selected))
    (now : Instant) :
    migrations.Pairwise (fun m n => m.before n = true) ∧
    ∃ inFiles missing,
      manager.status (folder.list tree) ⟨.ready, database⟩ =
        (.ok (inFiles ++ missing), ⟨.ready, selected⟩) ∧
      StatusEntry.Covers migrations records inFiles missing ∧
      (∃ report,
        manager.apply now ⟨true, true⟩ (folder.list tree) ⟨.ready, database⟩ =
          (.ok report, ⟨.ready, selected⟩) ∧
        report.outcomes.map (fun o => (o.name, o.status)) =
          ((inFiles ++ missing).filter StatusEntry.isMismatch).map
              (fun e => (e.name, .checksumMismatch)) ++
            (inFiles.filter fun e => !e.isApplied).map fun e => (e.name, .dryRun)) ∧
      ∀ options : ApplyOptions, options.isForced = false →
        ((∃ name expected actual after,
          manager.apply now options (folder.list tree) ⟨.ready, database⟩ =
            (.error (.checksumMismatch name expected actual), after)) ↔
          ∃ e ∈ inFiles ++ missing, e.isMismatch = true) := by
  refine ⟨Folder.pairwise_list hlist, ?_⟩
  obtain ⟨missing, hall, hcovers⟩ := StatusEntry.exists_missing_of_all migrations records
  rw [hlist]
  refine ⟨_, missing, ?_, hcovers, ?_, ?_⟩
  · simp only [status, whenReady, withListing, hread, hall]
  · obtain ⟨rows, hselect, hrecords⟩ := Ledger.records_eq_ok hread
    have hdry : (ApplyOptions.mk true true).isDryRun = true := rfl
    obtain ⟨hplain, _⟩ := manager.recorded_applyListed_of_dry now hdry hselect hrecords
      (checkMismatches_forced records migrations) []
    have happly : manager.apply now ⟨true, true⟩ (.ok migrations) ⟨.ready, database⟩ =
        (.ok ⟨mismatches records migrations ++ (pending migrations records).map .dryRun, true⟩,
          ⟨.ready, selected⟩) := by
      simp only [apply, whenReady, withListing, hplain]
    refine ⟨_, happly, ?_⟩
    have hnone : missing.filter StatusEntry.isMismatch = [] :=
      List.filter_eq_nil_iff.mpr fun e he => by simp [(hcovers.flagged e he).2]
    rw [List.map_append, mismatches_eq, pending_eq, List.filter_append, hnone, List.append_nil]
  · intro options hforced
    rw [exists_mismatch_iff hcovers.flagged]
    exact manager.apply_refused_iff now hforced hread

/-- A ledger with a record of the first of two migrations, from before it was edited, and one of a
migration whose file is gone. -/
def forgetful : Rehearsal :=
  { rows := [staleRecord.row, (Record.mk "0_gone" 0 "gone" ⟨0, 0⟩).row] }

/-- The files of two migrations, one of which was edited, and a ledger that knows it and a migration
without a file. -/
theorem status_agrees_of_forgetful :
    ∃ migrations, (⟨⟨"m"⟩⟩ : Folder).list twoMigrations = .ok migrations ∧
      ∃ inFiles missing selected report,
        rehearsed.status (.ok migrations) ⟨.ready, forgetful⟩ =
          (.ok (inFiles ++ missing), ⟨.ready, selected⟩) ∧
        (inFiles ++ missing).map (fun e => (e.name, e.isApplied, e.isMismatch, e.isMissing)) =
          [("1_a", true, true, false), ("2_b", false, false, false),
            ("0_gone", true, false, true)] ∧
        rehearsed.apply ⟨0, 0⟩ ⟨true, true⟩ (.ok migrations) ⟨.ready, forgetful⟩ =
          (.ok report, ⟨.ready, selected⟩) ∧
        report.outcomes.map (fun o => (o.name, o.status)) =
          ((inFiles ++ missing).filter StatusEntry.isMismatch).map
              (fun e => (e.name, .checksumMismatch)) ++
            (inFiles.filter fun e => !e.isApplied).map fun e => (e.name, .dryRun) := by
  have hlist : (⟨⟨"m"⟩⟩ : Folder).list twoMigrations = .ok
      [{ Migration.ofScript 1 "a" "CREATE TABLE a (id);" with path := ⟨"m/1_a.sql"⟩ },
       { Migration.ofScript 2 "b" "CREATE TABLE b (id);" with path := ⟨"m/2_b.sql"⟩ }] :=
    Folder.list_eq_ok rfl rfl rfl (by simp [Migration.before_iff, Migration.ofScript])
  have hread : rehearsed.ledger.records rehearsed.executor forgetful =
      (.ok [staleRecord, ⟨"0_gone", 0, "gone", ⟨0, 0⟩⟩],
        forgetful.note (.run rehearsed.ledger.selectSql [])) := rfl
  obtain ⟨_, inFiles, missing, hstatus, _, ⟨report, hreport, houtcomes⟩, _⟩ :=
    rehearsed.status_agrees hlist hread ⟨0, 0⟩
  have hentries : ((rehearsed.status ((⟨⟨"m"⟩⟩ : Folder).list twoMigrations)
      ⟨.ready, forgetful⟩).1.toOption.map fun entries =>
        entries.map fun e => (e.name, e.isApplied, e.isMismatch, e.isMissing)) =
      some [("1_a", true, true, false), ("2_b", false, false, false),
        ("0_gone", true, false, true)] := by
    rw [hlist]
    decide +kernel
  rw [hstatus] at hentries
  rw [hlist] at hstatus hreport
  exact ⟨_, hlist, inFiles, missing, _, report, hstatus, Option.some.inj hentries, hreport,
    houtcomes⟩

end Manager

end SchemaMigration
