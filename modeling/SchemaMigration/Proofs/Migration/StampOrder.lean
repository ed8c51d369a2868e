import SchemaMigration.Proofs.Calendar.TextOrder
import SchemaMigration.Proofs.Migration.Newest
import SchemaMigration.Proofs.Migration.Order

/-! # Stamps and the clock

The stamps of instants are in the order of the instants, through the ends of months and years and from
the years of four digits on to those of five. The digits of a stamp tell the date and the time of day
of its instant.
-/

namespace SchemaMigration.Stamp

open Calendar (Date Instant TimeOfDay)
open Number (ofDigits_append_paddedText ofDigits_paddedText paddedText)

/-- The instants that stamps tell apart: whole seconds, a leap second among them, from the year 0 on.
Stamps have room for years up to 922337203, long behind the last one that calendars are made for. -/
structure Tells (t : Instant) : Prop where
  first : 0 ≤ t.date.year
  last : t.date.year ≤ 922337203
  whole : t.nanos = 0 ∨ t.nanos = 1000000000 ∧ t.seconds % 60 = 59

/-- The date that the digits of a stamp tell: behind the year two digits each of the month and the
day. -/
def date (stamp : Int64) : Date :=
  ⟨stamp.toInt / 10000000000, (stamp.toInt / 100000000 % 100).toNat,
    (stamp.toInt / 1000000 % 100).toNat⟩

/-- The time of day that the digits of a stamp tell: at its end, two digits each of the hour, the
minute and the second. -/
def timeOfDay (stamp : Int64) : TimeOfDay :=
  ⟨(stamp.toInt / 10000 % 100).toNat, (stamp.toInt / 100 % 100).toNat, (stamp.toInt % 100).toNat⟩

/-- The date and the time of day of an instant in digits, without anything between them. -/
def digitText (t : Instant) : String :=
  paddedText 4 t.date.year.toNat ++ paddedText 2 t.date.month ++ paddedText 2 t.date.day
    ++ paddedText 2 t.clock.hour ++ paddedText 2 t.clock.minute ++ paddedText 2 t.clock.second

variable {s t : Instant}

namespace Tells

theorem isProper (h : Tells t) : t.IsProper := by
  have hwhole := h.whole
  unfold Instant.IsProper
  omega

/-- Every part of a date and of a time of day has two digits, but for the year. -/
theorem fits (h : Tells t) : 1 ≤ t.date.month ∧ t.date.month ≤ 12 ∧ t.date.day ≤ 99 ∧
    t.clock.hour ≤ 99 ∧ t.clock.minute ≤ 99 ∧ t.clock.second ≤ 99 := by
  have hvalid : t.date.Valid := Date.valid_ofDays _
  have hday := hvalid.lt_hundred.2
  obtain ⟨hhour, hminute, hsecond⟩ := Instant.clock_bounds h.isProper
  obtain ⟨hfirst, hlast, -⟩ := hvalid
  omega

/-- From the year 0 on, the digits of a stamp are those of its parts in a row. -/
theorem digits_eq (h : Tells t) :
    digits t = (((((t.date.year * 100 + t.date.month) * 100 + t.date.day) * 100 + t.clock.hour) * 100
      + t.clock.minute) * 100 + t.clock.second : Int) := by
  have hfirst := h.first
  have hparts : withinYear t = (((t.date.month * 100 + t.date.day) * 100 + t.clock.hour) * 100
      + t.clock.minute) * 100 + t.clock.second := rfl
  unfold digits
  simp only [hparts, Int.not_lt.mpr hfirst, if_false]
  omega

/-- The digits of a stamp have 64 bits. -/
theorem toInt64?_digits (h : Tells t) : Number.toInt64? (digits t) = some (ofInstant t) := by
  have hfirst := h.first
  have hlast := h.last
  obtain ⟨-, hmonth, hday, hhour, hminute, hsecond⟩ := h.fits
  have hdigits := h.digits_eq
  have hleast : Int64.minValue.toInt = -9223372036854775808 := rfl
  have hmost : Int64.maxValue.toInt = 9223372036854775807 := rfl
  have hstamp : Number.toInt64? (digits t) = some (Int64.ofInt (digits t)) := by
    refine if_pos ?_
    omega
  rw [ofInstant, hstamp, Option.getD_some]

theorem toInt_ofInstant (h : Tells t) : (ofInstant t).toInt = digits t :=
  MigrationName.toInt_eq_of_toInt64? h.toInt64?_digits

/-- A stamp is read from the date and the time of day in digits. -/
theorem readInt64_digitText (h : Tells t) :
    Number.readInt64 false (digitText t).toList = some (ofInstant t) := by
  have hfirst := h.first
  obtain ⟨-, hmonth, hday, hhour, hminute, hsecond⟩ := h.fits
  have hdigits : (Number.ofDigits (digitText t).toList : Int) = digits t := by
    rw [digitText, String.toList_append, String.toList_append, String.toList_append,
      String.toList_append, String.toList_append,
      ofDigits_append_paddedText (by decide) (by omega : t.clock.second < 10 ^ 2),
      ofDigits_append_paddedText (by decide) (by omega : t.clock.minute < 10 ^ 2),
      ofDigits_append_paddedText (by decide) (by omega : t.clock.hour < 10 ^ 2),
      ofDigits_append_paddedText (by decide) (by omega : t.date.day < 10 ^ 2),
      ofDigits_append_paddedText (by decide) (by omega : t.date.month < 10 ^ 2),
      ofDigits_paddedText, h.digits_eq]
    omega
  rw [Number.readInt64, if_neg (by decide), hdigits, h.toInt64?_digits]

theorem digits_pos (h : Tells t) : 0 < digits t := by
  have hfirst := h.first
  obtain ⟨hmonth, -⟩ := h.fits
  rw [h.digits_eq]
  omega

/-- Digits are in the order of the instants. -/
theorem digits_lt_digits_iff (hs : Tells s) (ht : Tells t) : digits s < digits t ↔ s.Before t := by
  have hwhole : s.nanos % 1000000000 = 0 := by
    have hnanos := hs.whole
    omega
  have hwhole' : t.nanos % 1000000000 = 0 := by
    have hnanos := ht.whole
    omega
  obtain ⟨hmonth, hmonth', hday, hhour, hminute, hsecond⟩ := hs.fits
  obtain ⟨hlater, hlater', hlaterDay, hlaterHour, hlaterMinute, hlaterSecond⟩ := ht.fits
  rw [hs.digits_eq, ht.digits_eq, Instant.before_iff hs.isProper ht.isProper, hwhole, hwhole']
  unfold Date.Before TimeOfDay.Before
  generalize s.date = day at *
  generalize t.date = later at *
  generalize s.clock = time at *
  generalize t.clock = laterTime at *
  obtain ⟨year, month, day⟩ := day
  obtain ⟨year', month', day'⟩ := later
  obtain ⟨hour, minute, second⟩ := time
  obtain ⟨hour', minute', second'⟩ := laterTime
  simp only [Date.mk.injEq, TimeOfDay.mk.injEq] at *
  omega

/-- Stamps are in the order of the instants. -/
theorem ofInstant_lt_ofInstant_iff (hs : Tells s) (ht : Tells t) :
    ofInstant s < ofInstant t ↔ s.Before t := by
  rw [Int64.lt_iff_toInt_lt, hs.toInt_ofInstant, ht.toInt_ofInstant, hs.digits_lt_digits_iff ht]

theorem ofInstant_pos (h : Tells t) : 0 < ofInstant t := by
  rw [Int64.lt_iff_toInt_lt, h.toInt_ofInstant]
  exact h.digits_pos

theorem date_ofInstant (h : Tells t) : date (ofInstant t) = t.date := by
  obtain ⟨-, hmonth, hday, hhour, hminute, hsecond⟩ := h.fits
  rw [date, h.toInt_ofInstant, h.digits_eq]
  generalize t.date = day at *
  obtain ⟨year, month, day⟩ := day
  simp only [Date.mk.injEq] at *
  omega

theorem timeOfDay_ofInstant (h : Tells t) : timeOfDay (ofInstant t) = t.clock := by
  obtain ⟨-, hmonth, hday, hhour, hminute, hsecond⟩ := h.fits
  rw [timeOfDay, h.toInt_ofInstant, h.digits_eq]
  generalize t.clock = time at *
  obtain ⟨hour, minute, second⟩ := time
  simp only [TimeOfDay.mk.injEq] at *
  omega

/-- A whole second is the instant of its date and its time of day. -/
theorem ofCalendar_eq (h : Tells t) : Instant.ofCalendar t.date t.clock 0 = t := by
  have hnone : t.nanos % 1000000000 / 1000 * 1000 = 0 := by
    rcases h.whole with hwhole | ⟨hwhole, -⟩ <;> rw [hwhole]
  have hsame : t.truncateMicros = t := by
    have hnanos : t.nanos / 1000 * 1000 = t.nanos := by
      rcases h.whole with hwhole | ⟨hwhole, -⟩ <;> rw [hwhole]
    rw [Instant.truncateMicros, hnanos]
  have hread := Instant.ofCalendar_eq h.isProper
  rw [hnone, hsame] at hread
  exact hread

end Tells

/-- Migrations that are stamped with the instants at which they were made are listed in the order of
these instants. -/
theorem pairwise_list_of_made {f : Folder} {tree : Files.Tree} {migrations : List Migration}
    (hlist : f.list tree = .ok migrations) {made : Migration → Instant}
    (hmade : ∀ m ∈ migrations, Tells (made m) ∧ m.timestamp = ofInstant (made m)) :
    migrations.Pairwise fun m n => ¬ (made n).Before (made m) := by
  apply (Folder.pairwise_list hlist).imp_of_mem
  intro m n hm hn hbefore hbehind
  obtain ⟨htells, hstamp⟩ := hmade m hm
  obtain ⟨htells', hstamp'⟩ := hmade n hn
  have hlt := (htells'.ofInstant_lt_ofInstant_iff htells).mpr hbehind
  rw [← hstamp, ← hstamp'] at hlt
  rcases Migration.before_iff.mp hbefore with hless | ⟨hsame, -⟩
  · exact Int64.lt_irrefl (Int64.lt_trans hlt hless)
  · exact Int64.lt_irrefl (hsame ▸ hlt)

/-- Stamps follow the clock. From the year 0 on they are positive, and a later second has a greater
stamp. A stamp is read from the digits of date and time, and its digits give its instant back. So
migrations that are stamped with the instants at which they were made are listed in the order of these
instants. -/
theorem follows_clock :
    (∀ s t, Tells s → Tells t → s.Before t → 0 < ofInstant s ∧ ofInstant s < ofInstant t) ∧
    (∀ t, Tells t → Number.readInt64 false (digitText t).toList = some (ofInstant t) ∧
      date (ofInstant t) = t.date ∧ timeOfDay (ofInstant t) = t.clock ∧
        Instant.ofCalendar (date (ofInstant t)) (timeOfDay (ofInstant t)) 0 = t) ∧
    ∀ (f : Folder) (tree : Files.Tree) (migrations : List Migration) (made : Migration → Instant),
      f.list tree = .ok migrations →
      (∀ m ∈ migrations, Tells (made m) ∧ m.timestamp = ofInstant (made m)) →
      migrations.Pairwise fun m n => ¬ (made n).Before (made m) := by
  refine ⟨fun s t hs ht hbefore => ?_, fun t ht => ?_, fun _ _ _ _ hlist hmade =>
    pairwise_list_of_made hlist hmade⟩
  · exact ⟨hs.ofInstant_pos, (hs.ofInstant_lt_ofInstant_iff ht).mpr hbefore⟩
  · rw [ht.date_ofInstant, ht.timeOfDay_ofInstant]
    exact ⟨ht.readInt64_digitText, rfl, rfl, ht.ofCalendar_eq⟩

/-! ## Around the year 10000 -/

/-- The last second of the year 9999. -/
def lastOfFourDigits : Instant :=
  ⟨253402300799, 0⟩

/-- The second behind it, the first one whose year has five digits. -/
def firstOfFiveDigits : Instant :=
  ⟨253402300800, 0⟩

/-- A directory with a migration of either second. -/
def aroundFiveDigits : Files.Tree :=
  ((Files.Tree.put {} ⟨"m/99991231235959_a.sql"⟩ (.text "SELECT 1;")).2.put
    ⟨"m/100000101000000_b.sql"⟩ (.text "SELECT 2;")).2

/-- The two migrations, in order. -/
def migrationsAroundFiveDigits : List Migration :=
  [{ Migration.ofScript 99991231235959 "a" "SELECT 1;" with path := ⟨"m/99991231235959_a.sql"⟩ },
    { Migration.ofScript 100000101000000 "b" "SELECT 2;" with path := ⟨"m/100000101000000_b.sql"⟩ }]

/-- The instant at which either of them was made. -/
def madeAroundFiveDigits (m : Migration) : Instant :=
  if m.timestamp = 99991231235959 then lastOfFourDigits else firstOfFiveDigits

/-- The years of five digits go on behind those of four, though the names of their files are before
the others as texts. -/
theorem follows_clock_of_fiveDigits :
    Tells lastOfFourDigits ∧ Tells firstOfFiveDigits ∧
    lastOfFourDigits.Before firstOfFiveDigits ∧ 0 < ofInstant lastOfFourDigits ∧
    ofInstant lastOfFourDigits < ofInstant firstOfFiveDigits ∧
    date (ofInstant firstOfFiveDigits) = ⟨10000, 1, 1⟩ ∧
    Folder.list ⟨⟨"m"⟩⟩ aroundFiveDigits = .ok migrationsAroundFiveDigits ∧
    migrationsAroundFiveDigits.Pairwise fun m n =>
      ¬ (madeAroundFiveDigits n).Before (madeAroundFiveDigits m) := by
  have hlast : Tells lastOfFourDigits :=
    ⟨by decide +kernel, by decide +kernel, .inl rfl⟩
  have hfirst : Tells firstOfFiveDigits :=
    ⟨by decide +kernel, by decide +kernel, .inl rfl⟩
  have hbefore : lastOfFourDigits.Before firstOfFiveDigits := .inl (by decide)
  have hlist : Folder.list ⟨⟨"m"⟩⟩ aroundFiveDigits = .ok migrationsAroundFiveDigits := by
    refine Folder.list_eq_ok rfl rfl rfl ?_
    simp [Migration.before_iff, migrationsAroundFiveDigits, Migration.ofScript]
  have hmade : ∀ m ∈ migrationsAroundFiveDigits,
      Tells (madeAroundFiveDigits m) ∧ m.timestamp = ofInstant (madeAroundFiveDigits m) := by
    refine List.forall_mem_cons.mpr ⟨⟨hlast, by decide +kernel⟩,
      List.forall_mem_singleton.mpr ⟨hfirst, by decide +kernel⟩⟩
  obtain ⟨hstamps, htold, hsorted⟩ := follows_clock
  obtain ⟨hpos, hlt⟩ := hstamps _ _ hlast hfirst hbefore
  obtain ⟨-, hdate, -⟩ := htold _ hfirst
  exact ⟨hlast, hfirst, hbefore, hpos, hlt, hdate.trans (by decide +kernel), hlist,
    hsorted _ _ _ _ hlist hmade⟩

end SchemaMigration.Stamp
