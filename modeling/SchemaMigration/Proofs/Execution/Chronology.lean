import SchemaMigration.Proofs.Calendar.TextOrder
import SchemaMigration.Proofs.Execution.Ledger

/-! # The ledger in the order of time

The rows of the ledger are selected in the order of the texts of their times, and rows of one time in
the order of their stamps. Read back, they are the records that were inserted, in the order of time.
-/

namespace SchemaMigration

open Calendar (Instant)

/-- The order in which rows of the ledger are selected: by the text of the time, and where that is the
same by the stamp. -/
def Row.Precedes (row other : Row) : Prop :=
  ∃ text stamp text' stamp',
    row.text? "applied_at" = some text ∧ row.integer? "timestamp" = some stamp ∧
      other.text? "applied_at" = some text' ∧ other.integer? "timestamp" = some stamp' ∧
        (text < text' ∨ text = text' ∧ stamp ≤ stamp')

/-- The order of records in time, and at one time in the order of their stamps. -/
def Record.Precedes (r s : Record) : Prop :=
  r.appliedAt.Before s.appliedAt ∨ r.appliedAt = s.appliedAt ∧ r.timestamp ≤ s.timestamp

namespace Record

variable {r s : Record} {records : List Record}

theorem text?_row (r : Record) : r.row.text? "applied_at" = some r.appliedAt.toText :=
  rfl

theorem integer?_row (r : Record) : r.row.integer? "timestamp" = some r.timestamp :=
  rfl

/-- Rows are in order exactly when their records are, as they are read back. -/
theorem precedes_row_iff (hr : r.appliedAt.IsCurrent) (hs : s.appliedAt.IsCurrent) :
    r.row.Precedes s.row ↔ r.kept.Precedes s.kept := by
  have htimes : r.kept.Precedes s.kept ↔ r.appliedAt.toText < s.appliedAt.toText ∨
      r.appliedAt.toText = s.appliedAt.toText ∧ r.timestamp ≤ s.timestamp := by
    rw [Instant.toText_lt_toText_iff hr hs, Instant.toText_eq_toText_iff hr hs]
    rfl
  rw [htimes, Row.Precedes, text?_row, integer?_row, text?_row, integer?_row]
  simp only [Option.some.injEq, exists_and_left, exists_eq_left']

/-- A ledger stores a record as the row of its values, and this row is read as the record, its time
cut to microseconds. -/
theorem exists_ofRow_of_insertion (l : Ledger) (hr : r.appliedAt.IsCurrent) :
    ∃ parameters, l.insertion r = .runInside l.insertSql parameters ∧ parameters.length = 4 ∧
      Record.ofRow ⟨Ledger.columns, parameters⟩ = .ok r.kept :=
  ⟨r.values, rfl, rfl, ofRow_row hr⟩

/-- Records of the years from 0 to 9999 are read back from the parameters with which they are
inserted, the texts of their times are in the order of the times, and so the rows are selected in an
order exactly when it is that of the records in time. -/
theorem read_in_order (h : ∀ r ∈ records, r.appliedAt.IsCurrent) :
    (∀ r ∈ records, ∀ l : Ledger, ∃ parameters,
      l.insertion r = .runInside l.insertSql parameters ∧ parameters.length = 4 ∧
        Record.ofRow ⟨Ledger.columns, parameters⟩ = .ok r.kept) ∧
    (∀ r ∈ records, ∀ s ∈ records,
      r.appliedAt.toText < s.appliedAt.toText ↔ r.kept.appliedAt.Before s.kept.appliedAt) ∧
    ((records.map Record.row).Pairwise Row.Precedes ↔
      (records.map Record.kept).Pairwise Record.Precedes) := by
  refine ⟨fun r hr l => exists_ofRow_of_insertion l (h r hr),
    fun r hr s hs => Instant.toText_lt_toText_iff (h r hr) (h s hs), ?_⟩
  rw [List.pairwise_map, List.pairwise_map]
  apply List.Pairwise.iff_of_mem
  intro r s hr hs
  exact precedes_row_iff (h r hr) (h s hs)

/-! ## Around a leap second -/

/-- Records of the end of the year 2016: of a microsecond before the leap second, in the midst of it,
and right after it. -/
def aroundLeapSecond : List Record :=
  [⟨"1_a", 1, "x", ⟨1483228799, 999999999⟩⟩, ⟨"2_b", 2, "y", ⟨1483228799, 1500000000⟩⟩,
    ⟨"3_c", 3, "z", ⟨1483228800, 0⟩⟩]

theorem isCurrent_aroundLeapSecond : ∀ r ∈ aroundLeapSecond, r.appliedAt.IsCurrent := by
  simp only [aroundLeapSecond, List.forall_mem_cons, List.not_mem_nil, false_implies, implies_true,
    and_true]
  exact ⟨⟨by decide, by decide, by decide⟩, ⟨by decide, by decide, by decide⟩,
    ⟨by decide, by decide, by decide⟩⟩

/-- The record of the leap second stands between the other two, by its text as well as in time. -/
theorem read_in_order_of_leapSecond :
    (∀ r ∈ aroundLeapSecond, r.appliedAt.IsCurrent) ∧
    aroundLeapSecond.map (fun r => r.appliedAt.toText) = ["2016-12-31T23:59:59.999999Z",
      "2016-12-31T23:59:60.500000Z", "2017-01-01T00:00:00.000000Z"] ∧
    (aroundLeapSecond.map Record.row).Pairwise Row.Precedes ∧
    ∀ r ∈ aroundLeapSecond, Record.ofRow r.row = .ok r.kept := by
  obtain ⟨hread, -, horder⟩ := read_in_order isCurrent_aroundLeapSecond
  refine ⟨isCurrent_aroundLeapSecond, by decide +kernel, horder.mpr ?_, fun r hr => ?_⟩
  · simp [aroundLeapSecond, kept, Precedes, Instant.Before, Instant.truncateMicros]
  · obtain ⟨parameters, hinsertion, -, hok⟩ := hread r hr ⟨""⟩
    obtain ⟨-, rfl⟩ := Request.runInside.inj hinsertion
    exact hok

end Record

end SchemaMigration
