import SchemaMigration.Proofs.Calendar.Date

/-! # Instants in order

Dates are ordered by their days, and instants by their dates, then by their times of day, and then by
what is left of a second.
-/

namespace SchemaMigration.Calendar

/-! ## Dates -/

namespace Date

variable {d e : Date}

/-- A date is before another one: by its year, then by its month and then by its day. -/
def Before (d e : Date) : Prop :=
  d.year < e.year ∨ d.year = e.year ∧ (d.month < e.month ∨ d.month = e.month ∧ d.day < e.day)

theorem daysBeforeYear_succ_le {year later : Int} (h : year < later) :
    daysBeforeYear (year + 1) ≤ daysBeforeYear later := by
  unfold daysBeforeYear
  omega

/-- A year is over when its months are. -/
theorem daysBeforeYear_add_months (year : Int) :
    daysBeforeYear year + daysBeforeMonth year 13 = daysBeforeYear (year + 1) := by
  rw [daysBeforeYear_succ, daysBeforeMonth_thirteen]
  split <;> omega

theorem daysBeforeMonth_mono (year : Int) {month later : Nat} (hmonth : 1 ≤ month)
    (h : month ≤ later) : daysBeforeMonth year month ≤ daysBeforeMonth year later := by
  induction h with
  | refl => exact Nat.le_refl _
  | step h ih =>
      rw [daysBeforeMonth_succ year (Nat.le_trans hmonth h)]
      exact Nat.le_trans ih (Nat.le_add_right _ _)

/-- The days of a year come before those of later months, and before the next year. -/
theorem Valid.day_le (h : d.Valid) {month : Nat} (hmonth : d.month < month) :
    daysBeforeMonth d.year d.month + d.day ≤ daysBeforeMonth d.year month := by
  obtain ⟨hfirst, -, -, hlast⟩ := h
  have hlength := daysBeforeMonth_succ d.year hfirst
  have hmono : daysBeforeMonth d.year (d.month + 1) ≤ daysBeforeMonth d.year month :=
    daysBeforeMonth_mono d.year (Nat.succ_pos _) hmonth
  omega

theorem toDays_lt_toDays (hd : d.Valid) (he : e.Valid) (h : d.Before e) : d.toDays < e.toDays := by
  have hday : 1 ≤ e.day := he.2.2.1
  unfold toDays
  rcases h with hyear | ⟨hyear, hmonth | ⟨hmonth, hlt⟩⟩
  · have hwithin := hd.day_le (by have hlast := hd.2.1; omega : d.month < 13)
    have hlength := daysBeforeYear_add_months d.year
    have hmono := daysBeforeYear_succ_le hyear
    omega
  · have hwithin := hd.day_le hmonth
    rw [hyear] at hwithin ⊢
    omega
  · rw [hyear, hmonth]
    omega

theorem before_trichotomy (d e : Date) : d.Before e ∨ d = e ∨ e.Before d := by
  obtain ⟨year, month, day⟩ := d
  obtain ⟨year', month', day'⟩ := e
  simp only [Before, Date.mk.injEq]
  omega

/-- Dates that exist are in the order of their days. -/
theorem toDays_lt_toDays_iff (hd : d.Valid) (he : e.Valid) : d.toDays < e.toDays ↔ d.Before e := by
  refine ⟨fun hlt => ?_, toDays_lt_toDays hd he⟩
  rcases before_trichotomy d e with hbefore | rfl | hbehind
  · exact hbefore
  · exact absurd hlt (Int.lt_irrefl _)
  · exact absurd (toDays_lt_toDays he hd hbehind) (Int.lt_asymm hlt)

end Date

/-! ## Instants -/

/-- A time of day is before another one: by its hour, then by its minute and then by its second. -/
def TimeOfDay.Before (time other : TimeOfDay) : Prop :=
  time.hour < other.hour ∨ time.hour = other.hour ∧
    (time.minute < other.minute ∨ time.minute = other.minute ∧ time.second < other.second)

namespace Instant

variable {s t : Instant}

/-- An instant is before another one. A leap second comes behind the second it is counted with. -/
def Before (s t : Instant) : Prop :=
  s.seconds < t.seconds ∨ s.seconds = t.seconds ∧ s.nanos < t.nanos

/-- The time of day as a clock shows it, which counts a leap second as second sixty. -/
def clock (t : Instant) : TimeOfDay :=
  { t.timeOfDay with second := t.timeOfDay.second + t.nanos / 1000000000 }

/-- The nanoseconds are less than a second, or belong to the leap second that may follow the last
second of a minute. -/
def IsProper (t : Instant) : Prop :=
  t.nanos < 1000000000 ∨ t.nanos < 2000000000 ∧ t.seconds % 60 = 59

/-- The days and the clock of an instant tell its seconds. -/
theorem seconds_eq (t : Instant) :
    t.seconds = t.date.toDays * 86400 + t.timeOfDay.hour * 3600 + t.timeOfDay.minute * 60 +
      t.timeOfDay.second := by
  have hdays : t.date.toDays = t.seconds / 86400 := Date.toDays_ofDays _
  rw [hdays]
  unfold timeOfDay
  simp only
  omega

theorem timeOfDay_bounds (t : Instant) :
    t.timeOfDay.hour ≤ 23 ∧ t.timeOfDay.minute ≤ 59 ∧ t.timeOfDay.second ≤ 59 := by
  unfold timeOfDay
  simp only
  omega

theorem clock_bounds (h : t.IsProper) :
    t.clock.hour ≤ 23 ∧ t.clock.minute ≤ 59 ∧ t.clock.second ≤ 60 := by
  obtain ⟨hhour, hminute, hsecond⟩ := t.timeOfDay_bounds
  unfold IsProper at h
  unfold clock
  simp only
  omega

theorem date_eq_date_iff : s.date = t.date ↔ s.date.toDays = t.date.toDays := by
  refine ⟨fun h => h ▸ rfl, fun h => ?_⟩
  have hs : s.date.toDays = s.seconds / 86400 := Date.toDays_ofDays _
  have ht : t.date.toDays = t.seconds / 86400 := Date.toDays_ofDays _
  rw [hs, ht] at h
  rw [date, date, h]

/-- Instants are in the order of what calendar and clock show, and then of what is left of a second. -/
theorem before_iff (hs : s.IsProper) (ht : t.IsProper) :
    s.Before t ↔ s.date.Before t.date ∨ s.date = t.date ∧
      (s.clock.Before t.clock ∨
        s.clock = t.clock ∧ s.nanos % 1000000000 < t.nanos % 1000000000) := by
  have hdates : s.date.Before t.date ↔ s.date.toDays < t.date.toDays :=
    (Date.toDays_lt_toDays_iff (Date.valid_ofDays _) (Date.valid_ofDays _)).symm
  rw [hdates, date_eq_date_iff]
  have hsecond := s.seconds_eq
  have hsecond' := t.seconds_eq
  obtain ⟨hhour, hminute, hlast⟩ := s.timeOfDay_bounds
  obtain ⟨hhour', hminute', hlast'⟩ := t.timeOfDay_bounds
  unfold Before TimeOfDay.Before clock
  unfold IsProper at hs ht
  generalize s.date.toDays = days at *
  generalize t.date.toDays = days' at *
  generalize s.timeOfDay = time at *
  generalize t.timeOfDay = time' at *
  obtain ⟨hour, minute, second⟩ := time
  obtain ⟨hour', minute', second'⟩ := time'
  simp only [TimeOfDay.mk.injEq] at *
  omega

end Instant

end SchemaMigration.Calendar
