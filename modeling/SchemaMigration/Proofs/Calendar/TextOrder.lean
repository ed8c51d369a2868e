import SchemaMigration.Proofs.Calendar.Order
import SchemaMigration.Proofs.Calendar.Rfc3339
import SchemaMigration.Proofs.Number.DigitOrder

/-! # Texts of instants in order

The texts of the instants of the years from 0 to 9999 have the same width, so they are ordered as the
instants are, but for what is finer than a microsecond.
-/

namespace SchemaMigration.Calendar

open Number (paddedText paddedText_append_lt_iff)

theorem Date.yearText_of_nonneg {year : Int} (hfirst : 0 ≤ year) (hlast : year ≤ 9999) :
    yearText year = paddedText 4 year.toNat := by
  obtain ⟨n, rfl⟩ := Int.eq_ofNat_of_zero_le hfirst
  exact if_pos (by omega)

theorem Date.Valid.lt_hundred {d : Date} (h : d.Valid) : d.month < 10 ^ 2 ∧ d.day < 10 ^ 2 := by
  obtain ⟨-, hmonth, -, hday⟩ := h
  have hlength : daysInMonth d.year d.month ≤ 31 := by
    unfold daysInMonth
    split
    · split <;> omega
    all_goals omega
  omega

namespace Instant

variable {s t : Instant}

theorem clock_truncateMicros (t : Instant) : t.truncateMicros.clock = t.clock := by
  have hwhole : t.nanos / 1000 * 1000 / 1000000000 = t.nanos / 1000000000 := by omega
  simp only [clock, truncateMicros, timeOfDay, hwhole]

theorem nanos_truncateMicros (t : Instant) :
    t.truncateMicros.nanos % 1000000000 = t.nanos % 1000000000 / 1000 * 1000 := by
  unfold truncateMicros
  simp only
  omega

theorem IsProper.truncateMicros (h : t.IsProper) : t.truncateMicros.IsProper := by
  unfold IsProper Instant.truncateMicros at *
  simp only
  omega

/-- What is finer than a microsecond is not in the text. -/
theorem toText_truncateMicros (t : Instant) : t.truncateMicros.toText = t.toText := by
  have hclock := congrArg TimeOfDay.second t.clock_truncateMicros
  have hmicros : t.truncateMicros.nanos % 1000000000 / 1000 = t.nanos % 1000000000 / 1000 := by
    rw [nanos_truncateMicros]
    omega
  simp only [clock] at hclock
  unfold toText
  simp only [hclock, hmicros]
  rfl

/-- The text of an instant, as calendar and clock show it. -/
theorem toList_toText_of_isCurrent (h : t.IsCurrent) :
    t.toText.toList = (paddedText 4 t.date.year.toNat).toList ++ '-' ::
      ((paddedText 2 t.date.month).toList ++ '-' :: ((paddedText 2 t.date.day).toList ++ 'T' ::
        ((paddedText 2 t.clock.hour).toList ++ ':' :: ((paddedText 2 t.clock.minute).toList ++ ':' ::
          ((paddedText 2 t.clock.second).toList ++ '.' ::
            ((paddedText 6 (t.nanos % 1000000000 / 1000)).toList ++ 'Z' :: [])))))) := by
  rw [toList_toText, Date.yearText_of_nonneg h.first h.last]
  rfl

/-- The numbers in the text of an instant have no more digits than there is room for. -/
theorem IsCurrent.fits (h : t.IsCurrent) :
    t.date.year.toNat < 10 ^ 4 ∧ t.date.month < 10 ^ 2 ∧ t.date.day < 10 ^ 2 ∧
      t.clock.hour < 10 ^ 2 ∧ t.clock.minute < 10 ^ 2 ∧ t.clock.second < 10 ^ 2 ∧
        t.nanos % 1000000000 / 1000 < 10 ^ 6 := by
  have hlast := h.last
  obtain ⟨hmonth, hday⟩ := (Date.valid_ofDays (t.seconds / 86400)).lt_hundred
  obtain ⟨hhour, hminute, hsecond⟩ := clock_bounds (t := t) h.nanos
  refine ⟨by omega, hmonth, hday, ?_⟩
  omega

/-- Texts are in the order of the instants, cut to microseconds. -/
theorem toText_lt_toText_iff (hs : s.IsCurrent) (ht : t.IsCurrent) :
    s.toText < t.toText ↔ s.truncateMicros.Before t.truncateMicros := by
  obtain ⟨hyear, hmonth, hday, hhour, hminute, hsecond, hmicros⟩ := hs.fits
  obtain ⟨hyear', hmonth', hday', hhour', hminute', hsecond', hmicros'⟩ := ht.fits
  have hfirst := hs.first
  have hfirst' := ht.first
  have hdate : s.truncateMicros.date = s.date := rfl
  have hdate' : t.truncateMicros.date = t.date := rfl
  rw [String.lt_iff, toList_toText_of_isCurrent hs, toList_toText_of_isCurrent ht,
    paddedText_append_lt_iff (by decide) hyear hyear',
    paddedText_append_lt_iff (by decide) hmonth hmonth',
    paddedText_append_lt_iff (by decide) hday hday',
    paddedText_append_lt_iff (by decide) hhour hhour',
    paddedText_append_lt_iff (by decide) hminute hminute',
    paddedText_append_lt_iff (by decide) hsecond hsecond',
    paddedText_append_lt_iff (by decide) hmicros hmicros',
    before_iff (IsProper.truncateMicros hs.nanos) (IsProper.truncateMicros ht.nanos),
    clock_truncateMicros, clock_truncateMicros, nanos_truncateMicros, nanos_truncateMicros, hdate,
    hdate']
  -- Both sides compare the same fields in the same order.
  clear hyear hmonth hday hhour hminute hsecond hyear' hmonth' hday' hhour' hminute' hsecond'
  unfold Date.Before TimeOfDay.Before
  generalize s.date = date at *
  generalize t.date = date' at *
  generalize s.clock = time at *
  generalize t.clock = time' at *
  obtain ⟨year, month, day⟩ := date
  obtain ⟨year', month', day'⟩ := date'
  obtain ⟨hour, minute, second⟩ := time
  obtain ⟨hour', minute', second'⟩ := time'
  simp only [Date.mk.injEq, TimeOfDay.mk.injEq, List.not_lt_nil, and_false, or_false] at *
  omega

/-- Instants have the same text when they are the same, cut to microseconds. -/
theorem toText_eq_toText_iff (hs : s.IsCurrent) (ht : t.IsCurrent) :
    s.toText = t.toText ↔ s.truncateMicros = t.truncateMicros := by
  constructor
  · intro h
    have hread : some s.truncateMicros = some t.truncateMicros := by
      rw [← ofText?_toText hs, ← ofText?_toText ht, h]
    exact Option.some.inj hread
  · intro h
    rw [← toText_truncateMicros s, h, toText_truncateMicros]

end Instant

end SchemaMigration.Calendar
