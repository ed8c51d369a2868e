import Mathlib.Data.Option.Basic
import SchemaMigration.Calendar.Rfc3339
import SchemaMigration.Proofs.Calendar.Date
import SchemaMigration.Proofs.Number.Decimal
import SchemaMigration.Proofs.Schema.Grammar.Lexeme

/-! # Instants written and read

An instant of the years from 0 to 9999 is read back from its text, but for what is finer than a
microsecond.
-/

namespace SchemaMigration.Calendar

open Grammar (run_append)
open Number (isDigit_of_mem_paddedText length_paddedText ofDigits_paddedText paddedText)
open Text (isDigit)

variable {rest : List Char}

/-! ## Parts -/

/-- A number of a fixed width is read back. -/
theorem digits?_paddedText {width n : Nat} (hwidth : 0 < width) (h : n < 10 ^ width)
    (rest : List Char) :
    digits? width ((paddedText width n).toList ++ rest) = some (n, rest) := by
  have hlength := length_paddedText hwidth h
  have hdigits : (paddedText width n).toList.all isDigit = true :=
    List.all_eq_true.mpr fun c => isDigit_of_mem_paddedText
  simp only [digits?, List.take_left' hlength, List.drop_left' hlength, hlength, hdigits,
    ofDigits_paddedText, and_self, if_true]

/-- Six digits of a second are read back as nanoseconds. -/
theorem fraction?_paddedText {micros : Nat} (h : micros < 10 ^ 6) {c : Char}
    (hc : isDigit c = false) (rest : List Char) :
    fraction? ('.' :: ((paddedText 6 micros).toList ++ c :: rest)) =
      some (micros * 1000, c :: rest) := by
  have hlength := length_paddedText (by decide) h
  have hne : (paddedText 6 micros).toList ≠ [] := by
    intro hnil
    rw [hnil] at hlength
    cases hlength
  have hrun : Text.run isDigit ((paddedText 6 micros).toList ++ c :: rest) =
      some ((paddedText 6 micros).toList, c :: rest) :=
    run_append hne (fun c => isDigit_of_mem_paddedText) (by simpa using hc)
  unfold fraction?
  simp only [hrun]
  have htake : (paddedText 6 micros).toList.take 9 = (paddedText 6 micros).toList :=
    List.take_of_length_le (by omega)
  rw [htake, ofDigits_paddedText, hlength]
  rfl

theorem char?_self (c : Char) (rest : List Char) : char? (· == c) (c :: rest) = some rest := by
  rw [char?, beq_self_eq_true, if_pos rfl]

/-- A date of the years from 0 to 9999 is read back. -/
theorem date?_text {d : Date} (hvalid : d.Valid) (hfirst : 0 ≤ d.year) (hlast : d.year ≤ 9999)
    (rest : List Char) :
    date? ((Date.yearText d.year).toList ++ '-' :: ((paddedText 2 d.month).toList ++
      '-' :: ((paddedText 2 d.day).toList ++ rest))) = some (d, rest) := by
  obtain ⟨year, month, day⟩ := d
  obtain ⟨n, rfl⟩ := Int.eq_ofNat_of_zero_le hfirst
  simp only at hlast
  have hyear : Date.yearText (n : Int) = paddedText 4 n := if_pos (by omega)
  have hmonth : month < 10 ^ 2 := by
    have hle := hvalid.2.1
    simp only at hle
    omega
  have hday : day < 10 ^ 2 := by
    have hle := hvalid.2.2.2
    have hlength : daysInMonth n month ≤ 31 := by
      unfold daysInMonth
      split
      · split <;> omega
      all_goals omega
    simp only at hle
    omega
  simp only [date?, hyear, digits?_paddedText (by decide : 0 < 4) (by omega : n < 10 ^ 4),
    digits?_paddedText (by decide) hmonth, digits?_paddedText (by decide) hday,
    char?_self, Option.bind_eq_bind, Option.bind_some]
  rw [guard, if_pos hvalid]
  rfl

theorem time?_text {time : TimeOfDay} (hhour : time.hour ≤ 23) (hminute : time.minute ≤ 59)
    (hsecond : time.second ≤ 60) (rest : List Char) :
    time? ((paddedText 2 time.hour).toList ++ ':' :: ((paddedText 2 time.minute).toList ++
      ':' :: ((paddedText 2 time.second).toList ++ rest))) = some (time, rest) := by
  have hhour' : time.hour < 10 ^ 2 := by omega
  have hminute' : time.minute < 10 ^ 2 := by omega
  have hsecond' : time.second < 10 ^ 2 := by omega
  simp only [time?, digits?_paddedText (by decide) hhour', digits?_paddedText (by decide) hminute',
    digits?_paddedText (by decide) hsecond', char?_self,
    Option.bind_eq_bind, Option.bind_some]
  rw [guard, if_pos ⟨hhour, hminute, hsecond⟩]
  rfl

namespace Instant

/-- An instant of the years from 0 to 9999, whose nanoseconds are less than a second, or belong to
the leap second that may follow the last second of a minute. -/
structure IsCurrent (t : Instant) : Prop where
  first : 0 ≤ t.date.year
  last : t.date.year ≤ 9999
  nanos : t.nanos < 1000000000 ∨ t.nanos < 2000000000 ∧ t.seconds % 60 = 59

/-- An instant is the one that its date, time of day and nanoseconds tell. -/
theorem ofCalendar_eq {t : Instant}
    (hnanos : t.nanos < 1000000000 ∨ t.nanos < 2000000000 ∧ t.seconds % 60 = 59) :
    ofCalendar t.date { t.timeOfDay with second := t.timeOfDay.second + t.nanos / 1000000000 }
      (t.nanos % 1000000000 / 1000 * 1000) = t.truncateMicros := by
  have hdays : t.date.toDays = t.seconds / 86400 := Date.toDays_ofDays _
  unfold ofCalendar truncateMicros timeOfDay
  simp only [hdays, Instant.mk.injEq]
  by_cases hleap : t.nanos < 1000000000
  · have hnone : t.nanos / 1000000000 = 0 := by omega
    rw [hnone, if_neg (by omega), if_neg (by omega)]
    constructor <;> omega
  · -- The leap second is counted with second fifty-nine.
    have hone : t.nanos / 1000000000 = 1 := by omega
    have hlast : (t.seconds % 86400).toNat % 60 = 59 := by omega
    rw [hone, if_pos (by omega), if_pos (by omega)]
    constructor <;> omega

/-- The text of an instant, field by field. -/
theorem toList_toText (t : Instant) :
    t.toText.toList = (Date.yearText t.date.year).toList ++ '-' ::
      ((paddedText 2 t.date.month).toList ++ '-' :: ((paddedText 2 t.date.day).toList ++ 'T' ::
        ((paddedText 2 t.timeOfDay.hour).toList ++ ':' ::
          ((paddedText 2 t.timeOfDay.minute).toList ++ ':' ::
            ((paddedText 2 (t.timeOfDay.second + t.nanos / 1000000000)).toList ++ '.' ::
              ((paddedText 6 (t.nanos % 1000000000 / 1000)).toList ++ 'Z' :: [])))))) := by
  unfold toText
  simp only [String.toList_append, List.append_assoc]
  rfl

/-- An instant is read back from its text, cut to microseconds. -/
theorem ofText?_toText {t : Instant} (h : t.IsCurrent) :
    ofText? t.toText = some t.truncateMicros := by
  have hdate := date?_text (Date.valid_ofDays (t.seconds / 86400)) h.first h.last
  have htime := @time?_text
    { t.timeOfDay with second := t.timeOfDay.second + t.nanos / 1000000000 }
    (by simp only [timeOfDay]; omega) (by simp only [timeOfDay]; omega)
    (by have hnanos := h.nanos; simp only [timeOfDay]; omega)
  have hfraction : fraction? ('.' :: ((paddedText 6 (t.nanos % 1000000000 / 1000)).toList ++
      ['Z'])) = some (t.nanos % 1000000000 / 1000 * 1000, ['Z']) :=
    fraction?_paddedText (by omega) (by decide) []
  have hzulu : offset? ['Z'] = some 0 := rfl
  have hletter : ∀ rest, char? (fun c => c == 'T' || c == 't' || c == ' ') ('T' :: rest) =
      some rest := fun _ => rfl
  simp only [ofText?, toList_toText, date, hdate, hletter, htime, hfraction, hzulu,
    Option.bind_eq_bind, Option.bind_some, Int.sub_zero]
  exact congrArg some (ofCalendar_eq h.nanos)

end Instant

end SchemaMigration.Calendar
