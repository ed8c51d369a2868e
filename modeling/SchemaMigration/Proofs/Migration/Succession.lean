import SchemaMigration.Proofs.Migration.Newest

/-! # Stamps that go on

A new migration is stamped behind the latest one and not before the instant at which it is made, and
its name is read back with this stamp. Every stamp that the name of a migration can have goes on so
but for one: behind the last number of 64 bits, which such a name can hold as well, there is none.
-/

namespace SchemaMigration.Stamp

open Calendar (Instant)

variable {now : Instant} {latest : Int64}

/-- The latest stamp goes on at an instant. The next stamp is the greater one of the instant's stamp
and of the number behind the latest stamp; it is above the latest stamp and not before the instant's,
and every name that has it is read with it. -/
structure GoesOn (now : Instant) (latest : Int64) : Prop where
  toInt_eq : (next now (some latest)).toInt = max (ofInstant now).toInt (latest.toInt + 1)
  above : latest < next now (some latest)
  notBefore : ofInstant now ≤ next now (some latest)
  isRead : ∀ slug sql, slug ≠ "" →
    MigrationName.parse (Migration.ofScript (next now (some latest)) slug sql).name =
      .ok (next now (some latest), slug)

theorem not_goesOn_maxValue : ¬ GoesOn now Int64.maxValue := by
  intro h
  exact Int64.not_le.mpr h.above (Int64.le_maxValue _)

theorem goesOn_of_ne (hne : latest ≠ Int64.maxValue) (hnonneg : 0 ≤ latest.toInt) :
    GoesOn now latest where
  toInt_eq := toInt_next_of_ne hne
  above := lt_next_of_ne hne
  notBefore := by
    apply ofInstant_le_next
    rintro stamp ⟨rfl⟩
    exact hne
  isRead slug sql hslug := by
    have hnext : 0 ≤ (next now (some latest)).toInt := by
      rw [toInt_next_of_ne hne]
      omega
    rw [Migration.parse_name hslug]
    exact if_pos hnext

/-- A stamp that was read from the name of a migration goes on, whatever the instant, exactly when it
is not the last one of 64 bits. -/
theorem goesOn_iff_of_parse {stem slug : String}
    (h : MigrationName.parse stem = .ok (latest, slug)) (now : Instant) :
    GoesOn now latest ↔ latest ≠ Int64.maxValue := by
  constructor
  · rintro hgoes rfl
    exact not_goesOn_maxValue hgoes
  · intro hne
    exact goesOn_of_ne hne (MigrationName.nonneg_of_parse h)

/-- The last stamp of 64 bits is read from a name, and does not go on. The one before it does. -/
theorem goesOn_iff_of_parse_of_last :
    (MigrationName.parse "9223372036854775807_x" = .ok (Int64.maxValue, "x") ∧
      ¬ GoesOn ⟨0, 0⟩ Int64.maxValue) ∧
    MigrationName.parse "9223372036854775806_x" = .ok (9223372036854775806, "x") ∧
      GoesOn ⟨0, 0⟩ 9223372036854775806 := by
  have hlast : MigrationName.parse "9223372036854775807_x" = .ok (Int64.maxValue, "x") := rfl
  have hbefore : MigrationName.parse "9223372036854775806_x" = .ok (9223372036854775806, "x") := rfl
  refine ⟨⟨hlast, fun hgoes => ?_⟩, hbefore, (goesOn_iff_of_parse hbefore ⟨0, 0⟩).mpr (by decide)⟩
  exact (goesOn_iff_of_parse hlast ⟨0, 0⟩).mp hgoes rfl

end SchemaMigration.Stamp
