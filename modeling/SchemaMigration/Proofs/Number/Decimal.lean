import Mathlib.Algebra.Group.Nat.Defs
import Mathlib.Data.List.Induction
import SchemaMigration.Number.Integer
import SchemaMigration.Text.Scan

/-! # Decimals

The digits of a number denote it. A number that is written with zeros in front has the width asked
for, unless it is too long, and denotes the number as well. Digits without the zeros in front of them
are those in which their number is written.
-/

namespace SchemaMigration.Number

open Text (isDigit)

theorem isDigit_of_mem_toDigits {n : Nat} {c : Char} (h : c ∈ Nat.toDigits 10 n) :
    isDigit c = true :=
  Nat.isDigit_of_mem_toDigits (by decide) (by decide) h

theorem ofDigits_toDigits (n : Nat) : ofDigits (Nat.toDigits 10 n) = n :=
  Nat.ofDigitChars_ten_toDigits

/-! ## Padded decimals -/

section Padded

variable {width n : Nat}

theorem isDigit_of_mem_paddedText {c : Char} (h : c ∈ (paddedText width n).toList) :
    isDigit c = true := by
  simp only [paddedText, String.toList_ofList, List.mem_append] at h
  rcases h with h | h
  · rw [List.eq_of_mem_replicate h]
    decide
  · exact isDigit_of_mem_toDigits h

theorem length_paddedText (hwidth : 0 < width) (h : n < 10 ^ width) :
    (paddedText width n).toList.length = width := by
  have hlength := (Nat.length_toDigits_le_iff (by decide : 1 < 10) hwidth).mpr h
  simp only [paddedText, String.toList_ofList, List.length_append, List.length_replicate]
  omega

/-- Zeros in front do not change a number. -/
theorem ofDigits_replicate_append (count : Nat) (digits : List Char) :
    ofDigits (List.replicate count '0' ++ digits) = ofDigits digits := by
  induction count with
  | zero => rfl
  | succ count ih => exact ih

theorem ofDigits_paddedText (width n : Nat) : ofDigits (paddedText width n).toList = n := by
  rw [paddedText, String.toList_ofList, ofDigits_replicate_append, ofDigits_toDigits]

end Padded

/-! ## Zeros in front -/

section Plain

variable {digits others : List Char}

theorem ofDigits_concat (c : Char) :
    ofDigits (digits ++ [c]) = 10 * ofDigits digits + digitValue c := by
  rw [ofDigits, List.foldl_append]
  rfl

theorem toDigits_digitValue {c : Char} (h : isDigit c = true) :
    digitValue c < 10 ∧ Nat.toDigits 10 (digitValue c) = [c] := by
  simp only [isDigit, Bool.and_eq_true, decide_eq_true_eq, Char.le_def,
    UInt32.le_iff_toNat_le] at h
  have hlow : 48 ≤ c.toNat := h.1
  have hhigh : c.toNat ≤ 57 := h.2
  have hvalue : digitValue c = c.toNat - 48 := rfl
  have hlt : digitValue c < 10 := by omega
  refine ⟨hlt, ?_⟩
  rw [Nat.toDigits_of_lt_base hlt]
  refine congrArg (fun d => [d]) (Char.toNat_inj.mp ?_)
  rw [Nat.toNat_digitChar_of_lt_ten hlt]
  omega

/-- The digits of a number without the zeros that stand in front of it. -/
def plain (digits : List Char) : List Char :=
  match digits.dropWhile (· == '0') with
  | [] => ['0']
  | c :: cs => c :: cs

theorem plain_of_zeros (h : digits.dropWhile (· == '0') = []) : plain digits = ['0'] := by
  rw [plain, h]

theorem plain_of_dropWhile (h : digits.dropWhile (· == '0') ≠ []) :
    plain digits = digits.dropWhile (· == '0') := by
  unfold plain
  cases hdrop : digits.dropWhile (· == '0') with
  | nil => exact absurd hdrop h
  | cons c cs => rfl

theorem dropWhile_ne_zero : digits.dropWhile (· == '0') ≠ ['0'] := by
  intro h
  have hhead := List.head?_dropWhile_not (· == '0') digits
  simp [h] at hhead

theorem plain_eq_plain_iff :
    plain digits = plain others ↔ digits.dropWhile (· == '0') = others.dropWhile (· == '0') := by
  refine ⟨fun h => ?_, fun h => by rw [plain, plain, h]⟩
  by_cases hdigits : digits.dropWhile (· == '0') = [] <;>
    by_cases hothers : others.dropWhile (· == '0') = []
  · rw [hdigits, hothers]
  · rw [plain_of_zeros hdigits, plain_of_dropWhile hothers] at h
    exact absurd h.symm dropWhile_ne_zero
  · rw [plain_of_dropWhile hdigits, plain_of_zeros hothers] at h
    exact absurd h dropWhile_ne_zero
  · rwa [plain_of_dropWhile hdigits, plain_of_dropWhile hothers] at h

/-- A number is written with nothing in front. -/
theorem toDigits_ofDigits (h : ∀ c ∈ digits, isDigit c = true) :
    Nat.toDigits 10 (ofDigits digits) = plain digits := by
  induction digits using List.reverseRecOn with
  | nil => rfl
  | append_singleton digits c ih =>
      obtain ⟨hlow, hlast⟩ := toDigits_digitValue (h c (by simp))
      have hwritten := ih fun d hd => h d (List.mem_append_left _ hd)
      rw [ofDigits_concat]
      by_cases hzeros : digits.dropWhile (· == '0') = []
      · have hzero : ofDigits digits = 0 := by
          rw [← ofDigits_toDigits (ofDigits digits), hwritten, plain_of_zeros hzeros]
          rfl
        have hdrop : (digits ++ [c]).dropWhile (· == '0') = [c].dropWhile (· == '0') := by
          rw [List.dropWhile_append, hzeros]
          rfl
        rw [hzero, Nat.mul_zero, Nat.zero_add, hlast, plain, hdrop]
        by_cases hc : c = '0'
        · rw [hc]
          rfl
        · rw [List.dropWhile_cons_of_neg (by simpa using hc)]
      · have hpos : 0 < ofDigits digits := by
          apply Nat.pos_of_ne_zero
          intro hzero
          rw [hzero, plain_of_dropWhile hzeros] at hwritten
          exact dropWhile_ne_zero hwritten.symm
        have hdrop : (digits ++ [c]).dropWhile (· == '0') =
            digits.dropWhile (· == '0') ++ [c] := by
          rw [List.dropWhile_append, if_neg (by simpa using hzeros)]
        rw [← Nat.toDigits_append_toDigits (by decide) hpos hlow, hlast, hwritten,
          plain_of_dropWhile hzeros, plain_of_dropWhile (by simp [hdrop]), hdrop]

/-- Digits are those that their number is written in, unless a zero stands in front of others. -/
theorem plain_eq_self_iff (hne : digits ≠ []) :
    plain digits = digits ↔ ∀ c cs, digits ≠ '0' :: c :: cs := by
  constructor
  · rintro h c cs rfl
    have hdrop : ('0' :: c :: cs).dropWhile (· == '0') = (c :: cs).dropWhile (· == '0') := rfl
    have hlength := congrArg List.length h
    by_cases hzeros : ('0' :: c :: cs).dropWhile (· == '0') = []
    · rw [plain_of_zeros hzeros] at hlength
      simp at hlength
    · rw [plain_of_dropWhile hzeros, hdrop] at hlength
      have hle := (List.dropWhile_suffix (l := c :: cs) (· == '0')).length_le
      simp only [List.length_cons] at hlength hle
      omega
  · intro h
    obtain ⟨c, cs, rfl⟩ := List.exists_cons_of_ne_nil hne
    by_cases hc : c = '0'
    · subst hc
      cases cs with
      | nil => rfl
      | cons d ds => exact absurd rfl (h d ds)
    · rw [plain, List.dropWhile_cons_of_neg (by simpa using hc)]

end Plain

end SchemaMigration.Number
