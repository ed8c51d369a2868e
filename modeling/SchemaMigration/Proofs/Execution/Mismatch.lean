import SchemaMigration.Proofs.Execution.Protocol

/-! # Runs over edited migrations

A migration that was applied and then edited stops a run before anything but the selection from the
ledger is sent, whether the run is dry or not. A forced run goes on: it reports every such migration
first, and what it sends beside the selection belongs to migrations that are not recorded.
-/

namespace SchemaMigration

open Calendar (Instant)
open Files (Tree)

variable {State : Type}

namespace Manager

variable {records : List Record} {migrations : List Migration} {m : Migration}

theorem mismatch?_eq_some_iff {record : Record} :
    mismatch? records m = some record ↔
      recorded? records m.name = some record ∧ record.checksum ≠ m.checksum := by
  simp [mismatch?, Option.filter_eq_some_iff]

/-- The outcomes of the migrations that were applied with other scripts, in order. -/
def mismatches (records : List Record) (migrations : List Migration) : List Outcome :=
  migrations.filterMap fun m => (mismatch? records m).map (Outcome.mismatch m)

/-- A forced run passes the check of the checksums with all mismatches. -/
theorem checkMismatches_forced (records : List Record) (migrations : List Migration) :
    checkMismatches records true migrations = .ok (mismatches records migrations) := by
  induction migrations with
  | nil => rfl
  | cons m migrations ih =>
      cases hmismatch : mismatch? records m with
      | none => simp [checkMismatches, mismatches, hmismatch, ih]
      | some record => simp [checkMismatches, mismatches, hmismatch, ih, pure, Except.pure,
          bind, Except.bind]

/-- A run passes the check of the checksums when there is no mismatch. -/
theorem checkMismatches_of_none {isForced : Bool}
    (h : ∀ m ∈ migrations, mismatch? records m = none) :
    checkMismatches records isForced migrations = .ok [] := by
  induction migrations with
  | nil => rfl
  | cons m migrations ih =>
      obtain ⟨hm, hrest⟩ := List.forall_mem_cons.mp h
      rw [checkMismatches, hm]
      exact ih hrest

/-- A run that is not forced fails the check of the checksums at the first mismatch. -/
theorem exists_first_mismatch (h : ∃ m ∈ migrations, ∃ record,
      recorded? records m.name = some record ∧ record.checksum ≠ m.checksum) :
    ∃ earlier m later record, migrations = earlier ++ m :: later ∧
      (∀ n ∈ earlier, mismatch? records n = none) ∧
      recorded? records m.name = some record ∧ record.checksum ≠ m.checksum ∧
      checkMismatches records false migrations =
        .error (.checksumMismatch m.name record.checksum m.checksum) := by
  induction migrations with
  | nil => simp at h
  | cons m migrations ih =>
      cases hmismatch : mismatch? records m with
      | some record =>
          obtain ⟨hrecorded, hchecksum⟩ := mismatch?_eq_some_iff.mp hmismatch
          exact ⟨[], m, migrations, record, rfl, by simp, hrecorded, hchecksum,
            by simp [checkMismatches, hmismatch]⟩
      | none =>
          -- The mismatch that there is lies behind.
          have hrest : ∃ n ∈ migrations, ∃ record,
              recorded? records n.name = some record ∧ record.checksum ≠ n.checksum := by
            obtain ⟨n, hn, record, hrecord⟩ := h
            rcases List.mem_cons.mp hn with rfl | hn
            · simp [mismatch?_eq_some_iff.mpr hrecord] at hmismatch
            · exact ⟨n, hn, record, hrecord⟩
          obtain ⟨earlier, first, later, record, rfl, hnone, hrecorded, hchecksum, herror⟩ :=
            ih hrest
          refine ⟨m :: earlier, first, later, record, rfl,
            List.forall_mem_cons.mpr ⟨hmismatch, hnone⟩, hrecorded, hchecksum, ?_⟩
          simpa only [checkMismatches, hmismatch] using herror

/-- The attempts of a run are at migrations that are not recorded. -/
theorem notRecorded_of_protocol {l : Ledger} {now : Instant} {attempts : List Attempt}
    (h : Protocol l now (pending migrations records) attempts) {a : Attempt} (ha : a ∈ attempts) :
    a.migration ∈ migrations ∧ recorded? records a.migration.name = none := by
  have hmem := h.leading.subset (List.mem_map.mpr ⟨a, ha, rfl⟩)
  obtain ⟨hmem, hnone⟩ := List.mem_filter.mp hmem
  exact ⟨hmem, by simpa using hnone⟩

theorem status_outcome_ne_checksumMismatch (a : Attempt) :
    a.outcome.status ≠ .checksumMismatch := by
  unfold Attempt.outcome
  cases firstError? a.exchanges <;> simp [Outcome.applied, Outcome.failed]

variable (manager : Manager State)

/-- A run that fails the check of the checksums has sent a selection from the ledger and nothing
else. -/
theorem recorded_applyListed_of_error (now : Instant) {options : ApplyOptions}
    {database selected : State} {rows : List Row} {error : MigrationError}
    (hselect : manager.executor.perform (.run manager.ledger.selectSql []) database =
      (.ok rows, selected))
    (hrecords : rows.mapM Record.ofRow = .ok records)
    (hfail : checkMismatches records options.isForced migrations = .error error)
    (log : List Exchange) :
    manager.applyListed now options migrations database = (.error error, selected) ∧
      manager.recorded.applyListed now options migrations (database, log) =
        (.error error, selected, log ++ [⟨.run manager.ledger.selectSql [], .ok rows⟩]) := by
  have hlogged := manager.executor.recorded_perform hselect log
  constructor
  · simp [applyListed, Ledger.records, hselect, hrecords, applyPending, hfail]
  · simp [applyListed, recorded, Ledger.records, hlogged, hrecords, applyPending, hfail]

/-- A dry run that passes the check of the checksums has sent as little, and reports the statements
of the migrations that are not recorded. -/
theorem recorded_applyListed_of_dry (now : Instant) {options : ApplyOptions}
    (hdry : options.isDryRun = true) {database selected : State} {rows : List Row}
    {outcomes : List Outcome}
    (hselect : manager.executor.perform (.run manager.ledger.selectSql []) database =
      (.ok rows, selected))
    (hrecords : rows.mapM Record.ofRow = .ok records)
    (hpass : checkMismatches records options.isForced migrations = .ok outcomes)
    (log : List Exchange) :
    manager.applyListed now options migrations database =
        (.ok ⟨outcomes ++ (pending migrations records).map .dryRun, true⟩, selected) ∧
      manager.recorded.applyListed now options migrations (database, log) =
        (.ok ⟨outcomes ++ (pending migrations records).map .dryRun, true⟩, selected,
          log ++ [⟨.run manager.ledger.selectSql [], .ok rows⟩]) := by
  have hlogged := manager.executor.recorded_perform hselect log
  constructor
  · simp [applyListed, Ledger.records, hselect, hrecords, applyPending, hpass, hdry]
  · simp [applyListed, recorded, Ledger.records, hlogged, hrecords, applyPending, hpass, hdry]

/-- What a forced run reports and sends: the mismatches come first, and behind the selection from
the ledger there is one transaction for each of the migrations it attempts, none of which is
recorded. A dry run attempts none. -/
theorem recorded_applyListed_of_forced (now : Instant) (migrations : List Migration)
    {options : ApplyOptions} (hforced : options.isForced = true)
    {database selected : State} {rows : List Row}
    (hselect : manager.executor.perform (.run manager.ledger.selectSql []) database =
      (.ok rows, selected))
    (hrecords : rows.mapM Record.ofRow = .ok records) (log : List Exchange) :
    ∃ outcomes attempts final,
      manager.applyListed now options migrations database =
        (.ok ⟨mismatches records migrations ++ outcomes, options.isDryRun⟩, final) ∧
      manager.recorded.applyListed now options migrations (database, log) =
        (.ok ⟨mismatches records migrations ++ outcomes, options.isDryRun⟩, final,
          log ++ ⟨.run manager.ledger.selectSql [], .ok rows⟩
            :: attempts.flatMap Attempt.exchanges) ∧
      (∀ o ∈ outcomes, o.status ≠ .checksumMismatch) ∧
      (∀ a ∈ attempts, a.migration ∈ migrations ∧ recorded? records a.migration.name = none ∧
        ∃ result, Transacts (manager.ledger.application a.migration now) result a.exchanges) ∧
      (options.isDryRun = true → attempts = []) := by
  have hpass : checkMismatches records options.isForced migrations =
      .ok (mismatches records migrations) := by
    rw [hforced]
    exact checkMismatches_forced records migrations
  cases hdry : options.isDryRun with
  | true =>
      obtain ⟨hplain, hrecorded⟩ :=
        manager.recorded_applyListed_of_dry now hdry hselect hrecords hpass log
      refine ⟨_, [], selected, hplain, hrecorded, ?_, by simp, by simp⟩
      intro o ho
      obtain ⟨m, _, rfl⟩ := List.mem_map.mp ho
      simp [Outcome.dryRun]
  | false =>
      obtain ⟨attempts, final, hplain, hrecorded, hprotocol⟩ :=
        manager.recorded_applyListed hdry hselect hrecords hpass log
      refine ⟨_, attempts, final, hplain, hrecorded, ?_, ?_, by simp⟩
      · intro o ho
        obtain ⟨a, _, rfl⟩ := List.mem_map.mp ho
        exact status_outcome_ne_checksumMismatch a
      · intro a ha
        obtain ⟨hmem, hnone⟩ := notRecorded_of_protocol hprotocol ha
        exact ⟨hmem, hnone, hprotocol.transacts a ha⟩

/-- The record of the first of two migrations, from before it was edited. -/
def staleRecord : Record :=
  ⟨"1_a", 1, "stale", ⟨0, 0⟩⟩

/-- A database that holds this record alone. -/
def stale : Rehearsal :=
  { rows := [⟨Ledger.columns, staleRecord.values⟩] }

end Manager

end SchemaMigration
