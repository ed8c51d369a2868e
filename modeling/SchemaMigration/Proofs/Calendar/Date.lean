import SchemaMigration.Calendar.Instant

/-! # Dates and days

A count of days determines a date of the calendar, and the date gives the count back.
-/

namespace SchemaMigration.Calendar.Date

/-! ## Years -/

/-- A year has 365 days, and a leap year one more. -/
theorem daysBeforeYear_succ (year : Int) :
    daysBeforeYear (year + 1) = daysBeforeYear year + 365 + if isLeapYear year then 1 else 0 := by
  have hleap : isLeapYear year = true ↔ year % 4 = 0 ∧ (year % 100 ≠ 0 ∨ year % 400 = 0) := by
    simp [isLeapYear]
  unfold daysBeforeYear
  split
  next h =>
    rw [hleap] at h
    omega
  next h =>
    rw [hleap] at h
    omega

/-- A day belongs to the year that is found for it. -/
theorem yearOfDay_spec (day : Int) :
    daysBeforeYear (yearOfDay day) ≤ day ∧ day < daysBeforeYear (yearOfDay day + 1) := by
  unfold yearOfDay
  simp only
  split
  next h =>
    refine ⟨h, ?_⟩
    unfold daysBeforeYear
    omega
  next h =>
    split
    next hbefore =>
      refine ⟨?_, by simpa using hbefore⟩
      unfold daysBeforeYear
      omega
    next hafter => exact ⟨Int.not_lt.mp hafter, Int.not_le.mp h⟩

/-! ## Months -/

theorem daysBeforeMonth_succ (year : Int) {month : Nat} (h : 1 ≤ month) :
    daysBeforeMonth year (month + 1) = daysBeforeMonth year month + daysInMonth year month := by
  unfold daysBeforeMonth
  obtain ⟨m, rfl⟩ : ∃ m, month = m + 1 := ⟨month - 1, by omega⟩
  simp [List.range_succ, List.foldl_append]

/-- The months of a year have the days of the year. -/
theorem daysBeforeMonth_thirteen (year : Int) :
    daysBeforeMonth year 13 = 365 + if isLeapYear year then 1 else 0 := by
  unfold daysBeforeMonth daysInMonth
  cases isLeapYear year <;> rfl

/-- A day belongs to the month that is found for it, if one of the months looked at has it. -/
theorem monthOfDay_spec (year : Int) (fuel month day : Nat) (hmonth : 1 ≤ month)
    (hday : daysBeforeMonth year month + day < daysBeforeMonth year (month + fuel + 1)) :
    let (m, d) := monthOfDay year fuel month day
    month ≤ m ∧ m ≤ month + fuel ∧ 1 ≤ d ∧ d ≤ daysInMonth year m ∧
      daysBeforeMonth year m + d = daysBeforeMonth year month + day + 1 := by
  induction fuel generalizing month day with
  | zero =>
      rw [Nat.add_zero, daysBeforeMonth_succ year hmonth] at hday
      simp only [monthOfDay]
      omega
  | succ fuel ih =>
      have hlength := daysBeforeMonth_succ year hmonth
      unfold monthOfDay
      simp only
      split
      next h =>
        simp only
        omega
      next h =>
        have hsum : daysBeforeMonth year (month + 1) + (day - daysInMonth year month) =
            daysBeforeMonth year month + day := by omega
        have hmonths : month + 1 + fuel + 1 = month + (fuel + 1) + 1 := by omega
        have hrest := ih (month + 1) (day - daysInMonth year month) (by omega)
          (by rwa [hsum, hmonths])
        rw [hsum] at hrest
        revert hrest
        rcases monthOfDay year fuel (month + 1) (day - daysInMonth year month) with ⟨m, d⟩
        rintro ⟨hfirst, hlast, hrest⟩
        exact ⟨by omega, by omega, hrest⟩

/-! ## Dates -/

/-- The date of a count of days exists and lies that many days after the start of the count. -/
theorem ofDays_spec (days : Int) : (ofDays days).Valid ∧ (ofDays days).toDays = days := by
  obtain ⟨hfirst, hlast⟩ := yearOfDay_spec (days + epochDay)
  have hyear := daysBeforeYear_succ (yearOfDay (days + epochDay))
  have hjanuary : daysBeforeMonth (yearOfDay (days + epochDay)) 1 = 0 := rfl
  have hmonths := daysBeforeMonth_thirteen (yearOfDay (days + epochDay))
  unfold ofDays
  simp only
  generalize yearOfDay (days + epochDay) = year at *
  have hday : daysBeforeMonth year 1 + (days + epochDay - daysBeforeYear year).toNat <
      daysBeforeMonth year (1 + 11 + 1) := by
    rw [hyear] at hlast
    rw [hmonths, hjanuary]
    split at hlast
    next hleap =>
      rw [if_pos hleap]
      omega
    next hleap =>
      rw [if_neg hleap]
      omega
  have hmonth := monthOfDay_spec year 11 1 _ (Nat.le_refl 1) hday
  revert hmonth
  rcases monthOfDay year 11 1 (days + epochDay - daysBeforeYear year).toNat with ⟨m, d⟩
  rintro ⟨hm, hm', hd, hd', hsum⟩
  refine ⟨⟨hm, hm', hd, hd'⟩, ?_⟩
  unfold toDays
  simp only
  omega

theorem valid_ofDays (days : Int) : (ofDays days).Valid :=
  (ofDays_spec days).1

theorem toDays_ofDays (days : Int) : (ofDays days).toDays = days :=
  (ofDays_spec days).2

end SchemaMigration.Calendar.Date
