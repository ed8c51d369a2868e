import SchemaMigration.Proofs.Number.Decimal

/-! # Digits in a row and in order

Numbers written one behind the other denote one number, in which each has as many places as it is wide.
Numbers that are written with the same number of digits are ordered as the texts of their digits are.
-/

namespace SchemaMigration.Number

open Text (isDigit)

variable {as bs cs ds : List Char} {width m n : Nat}

theorem ofDigits_append (as bs : List Char) :
    ofDigits (as ++ bs) = ofDigits as * 10 ^ bs.length + ofDigits bs := by
  induction bs using List.reverseRecOn with
  | nil => simp [ofDigits]
  | append_singleton bs b ih =>
      rw [← List.append_assoc, ofDigits_concat, ih, ofDigits_concat, List.length_append,
        List.length_singleton, Nat.pow_succ]
      have hten : ∀ m n : Nat, m * (n * 10) = 10 * (m * n) := fun m n => by
        rw [Nat.mul_comm 10, Nat.mul_assoc]
      rw [hten]
      omega

/-- A number of a fixed width at the end of others. -/
theorem ofDigits_append_paddedText (hwidth : 0 < width) (h : n < 10 ^ width) :
    ofDigits (as ++ (paddedText width n).toList) = ofDigits as * 10 ^ width + n := by
  rw [ofDigits_append, length_paddedText hwidth h, ofDigits_paddedText]

/-- Behind fronts of one length, texts are ordered by what follows only where the fronts are the
same. -/
theorem append_lt_append_iff (h : as.length = bs.length) :
    as ++ cs < bs ++ ds ↔ as < bs ∨ as = bs ∧ cs < ds := by
  induction as generalizing bs with
  | nil =>
      obtain rfl := List.eq_nil_of_length_eq_zero h.symm
      simp
  | cons a as ih =>
      cases bs with
      | nil => cases h
      | cons b bs =>
          rw [List.cons_append, List.cons_append, List.cons_lt_cons_iff, List.cons_lt_cons_iff,
            ih (Nat.succ.inj h), List.cons.injEq]
          constructor
          · rintro (hlt | ⟨rfl, hlt | ⟨rfl, hlt⟩⟩)
            · exact .inl (.inl hlt)
            · exact .inl (.inr ⟨rfl, hlt⟩)
            · exact .inr ⟨⟨rfl, rfl⟩, hlt⟩
          · rintro ((hlt | ⟨rfl, hlt⟩) | ⟨⟨rfl, rfl⟩, hlt⟩)
            · exact .inl hlt
            · exact .inr ⟨rfl, .inl hlt⟩
            · exact .inr ⟨rfl, .inr ⟨rfl, hlt⟩⟩

theorem lt_iff_digitValue_lt {c d : Char} (hc : isDigit c = true) (hd : isDigit d = true) :
    c < d ↔ digitValue c < digitValue d := by
  simp only [isDigit, Bool.and_eq_true, decide_eq_true_eq, Char.le_def,
    UInt32.le_iff_toNat_le] at hc hd
  have hlow : 48 ≤ c.toNat := hc.1
  have hlow' : 48 ≤ d.toNat := hd.1
  have hlt : c < d ↔ c.toNat < d.toNat := by
    rw [Char.lt_def, UInt32.lt_iff_toNat_lt]
    rfl
  have hvalue : ∀ e : Char, digitValue e = e.toNat - 48 := fun _ => rfl
  rw [hlt, hvalue, hvalue]
  clear hc hd
  omega

/-- Digits of one length are ordered as the numbers are that they denote. -/
theorem lt_iff_ofDigits_lt (h : as.length = bs.length) (has : ∀ c ∈ as, isDigit c = true)
    (hbs : ∀ c ∈ bs, isDigit c = true) :
    (as < bs ↔ ofDigits as < ofDigits bs) ∧ (as = bs ↔ ofDigits as = ofDigits bs) := by
  induction as using List.reverseRecOn generalizing bs with
  | nil =>
      obtain rfl := List.eq_nil_of_length_eq_zero h.symm
      simp
  | append_singleton as a ih =>
      induction bs using List.reverseRecOn with
      | nil => simp at h
      | append_singleton bs b =>
          have hlength : as.length = bs.length := by simpa using h
          obtain ⟨hlt, heq⟩ := ih hlength (fun c hc => has c (List.mem_append_left _ hc))
            fun c hc => hbs c (List.mem_append_left _ hc)
          have ha := has a (by simp)
          have hb := hbs b (by simp)
          have hlast := lt_iff_digitValue_lt ha hb
          have hlast' := lt_iff_digitValue_lt hb ha
          obtain ⟨hsmall, hwritten⟩ := toDigits_digitValue ha
          obtain ⟨hsmall', hwritten'⟩ := toDigits_digitValue hb
          have hsame : a = b ↔ digitValue a = digitValue b := by
            refine ⟨fun hab => hab ▸ rfl, fun hab => ?_⟩
            rw [hab, hwritten'] at hwritten
            exact (List.cons.inj hwritten).1.symm
          have hconcat : as ++ [a] = bs ++ [b] ↔ as = bs ∧ a = b := by simp
          rw [append_lt_append_iff hlength, hlt, heq, List.cons_lt_cons_iff, hlast, hconcat, heq,
            hsame, ofDigits_concat, ofDigits_concat]
          simp only [List.not_lt_nil, and_false, or_false]
          omega

/-- Numbers of one width that are followed by the same character are ordered first by their digits,
and then by what comes behind. -/
theorem paddedText_append_lt_iff (hwidth : 0 < width) (hm : m < 10 ^ width) (hn : n < 10 ^ width)
    (c : Char) :
    (paddedText width m).toList ++ c :: cs < (paddedText width n).toList ++ c :: ds ↔
      m < n ∨ m = n ∧ cs < ds := by
  have hlength : (paddedText width m).toList.length = (paddedText width n).toList.length := by
    rw [length_paddedText hwidth hm, length_paddedText hwidth hn]
  obtain ⟨hlt, heq⟩ := lt_iff_ofDigits_lt hlength (fun _ => isDigit_of_mem_paddedText)
    fun _ => isDigit_of_mem_paddedText
  rw [append_lt_append_iff hlength, hlt, heq, ofDigits_paddedText, ofDigits_paddedText,
    List.cons_lt_cons_iff]
  simp

end SchemaMigration.Number
