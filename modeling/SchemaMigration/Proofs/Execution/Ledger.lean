import SchemaMigration.Execution.Report
import SchemaMigration.Proofs.Calendar.Rfc3339
import SchemaMigration.Proofs.Fallible
import SchemaMigration.Proofs.Schema.Validity

/-! # Records in the ledger

A row of the ledger is read as the record that it was written for, but for what of its time is finer
than a microsecond.
-/

namespace SchemaMigration

open Calendar (Instant)

/-- A record as the ledger gives it back. -/
def Record.kept (r : Record) : Record :=
  { r with appliedAt := r.appliedAt.truncateMicros }

/-- The row of a record. -/
def Record.row (r : Record) : Row :=
  ⟨Ledger.columns, r.values⟩

variable {record : Record} {records : List Record} {migrations : List Migration} {now : Instant}

/-- A record is read back from its row. -/
theorem Record.ofRow_row (h : record.appliedAt.IsCurrent) :
    Record.ofRow record.row = .ok record.kept := by
  have hname : record.row.text? "name" = some record.name := rfl
  have hstamp : record.row.integer? "timestamp" = some record.timestamp := rfl
  have hchecksum : record.row.text? "checksum" = some record.checksum := rfl
  have htext : record.row.text? "applied_at" = some record.appliedAt.toText := rfl
  unfold ofRow
  rw [hname, hstamp, hchecksum, htext, Option.bind_some, Instant.ofText?_toText h]
  rfl

/-- A name has a record if one of the records is of that name. -/
theorem isSome_recorded? (records : List Record) (name : String) :
    (recorded? records name).isSome = records.any fun r => r.name == name := by
  rw [Bool.eq_iff_iff, recorded?, List.getLast?_isSome, List.any_eq_true]
  simp [List.filter_eq_nil_iff]

/-- The record of a name, when all records of the name are this one. -/
theorem recorded?_eq_some (hmem : record ∈ records)
    (hall : ∀ r ∈ records, r.name = record.name → r = record) :
    recorded? records record.name = some record := by
  have hfilter : record ∈ records.filter fun r => r.name == record.name :=
    List.mem_filter.mpr ⟨hmem, beq_self_eq_true _⟩
  unfold recorded?
  cases hlast : (records.filter fun r => r.name == record.name).getLast? with
  | none =>
      rw [List.getLast?_eq_none_iff] at hlast
      rw [hlast] at hfilter
      cases hfilter
  | some last =>
      obtain ⟨hlastMem, hname⟩ := List.mem_filter.mp (List.mem_of_getLast? hlast)
      rw [hall last hlastMem (beq_iff_eq.mp hname)]

/-- The rows are those of the records of some migrations, all applied at one instant. -/
def HoldRecords (rows : List Row) (migrations : List Migration) (now : Instant) : Prop :=
  ∀ row, row ∈ rows ↔ ∃ m ∈ migrations, row = (Record.ofMigration m now).row

/-- Rows of records are read as these records. -/
theorem exists_records {rows : List Row} (h : HoldRecords rows migrations now)
    (hnow : now.IsCurrent) :
    ∃ records, rows.mapM Record.ofRow = .ok records ∧
      ∀ record, record ∈ records ↔ ∃ m ∈ migrations, record = (Record.ofMigration m now).kept := by
  have hread : ∀ m, Record.ofRow (Record.ofMigration m now).row =
      .ok (Record.ofMigration m now).kept := fun _ => Record.ofRow_row hnow
  have hrows : ∀ row ∈ rows, ∃ record, Record.ofRow row = .ok record := by
    intro row hrow
    obtain ⟨m, _, rfl⟩ := (h row).mp hrow
    exact ⟨_, hread m⟩
  obtain ⟨records, hrecords⟩ := exists_mapM_eq_ok hrows
  have hpairs := mapM_eq_ok_iff.mp hrecords
  refine ⟨records, hrecords, fun record => ⟨fun hrecord => ?_, ?_⟩⟩
  · obtain ⟨row, hrow, hok⟩ := exists_of_mem_right hpairs hrecord
    obtain ⟨m, hm, rfl⟩ := (h row).mp hrow
    exact ⟨m, hm, Except.ok.inj (hok.symm.trans (hread m))⟩
  · rintro ⟨m, hm, rfl⟩
    obtain ⟨record, hrecord, hok⟩ := exists_of_mem_left hpairs ((h _).mpr ⟨m, hm, rfl⟩)
    obtain rfl := Except.ok.inj (hok.symm.trans (hread m))
    exact hrecord

namespace StatusEntry

/-- The state of a migration that was applied with the script it has. -/
def current (m : Migration) (now : Instant) : StatusEntry :=
  { name := m.name, timestamp := m.timestamp, appliedAt := some now.truncateMicros }

/-- When the records are those of the migrations, every one is applied, with the script it has, and
none is missing. -/
theorem all_of_records (hnames : (migrations.map Migration.name).Nodup)
    (hrecords : ∀ record, record ∈ records ↔
      ∃ m ∈ migrations, record = (Record.ofMigration m now).kept) :
    StatusEntry.all migrations records = migrations.map fun m => current m now := by
  have hrecorded : ∀ m ∈ migrations,
      recorded? records m.name = some (Record.ofMigration m now).kept := by
    intro m hm
    refine recorded?_eq_some ((hrecords _).mpr ⟨m, hm, rfl⟩) fun record hrecord hname => ?_
    obtain ⟨n, hn, rfl⟩ := (hrecords record).mp hrecord
    rw [eq_of_nodup_map hnames hn hm hname]
  have hmissing : records.filter (fun r => !migrations.any fun m => m.name == r.name) = [] := by
    refine List.filter_eq_nil_iff.mpr fun record hrecord => ?_
    obtain ⟨m, hm, rfl⟩ := (hrecords record).mp hrecord
    have hany : (migrations.any fun n => n.name == m.name) = true :=
      List.any_eq_true.mpr ⟨m, hm, beq_self_eq_true _⟩
    change ¬(!migrations.any fun n => n.name == m.name) = true
    rw [hany]
    decide
  unfold all
  rw [hmissing, List.map_nil, List.append_nil]
  refine List.map_congr_left fun m hm => ?_
  simp only [ofMigration, hrecorded m hm, current, Option.map_some, Option.any_some]
  have hsame : ((Record.ofMigration m now).kept.checksum != m.checksum) = false :=
    bne_self_eq_false _
  rw [hsame]
  rfl

end StatusEntry

end SchemaMigration
