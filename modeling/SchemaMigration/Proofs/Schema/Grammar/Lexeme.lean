import Mathlib.Data.List.TakeWhile
import SchemaMigration.Proofs.Schema.Grammar.Judgement
import SchemaMigration.Proofs.Schema.Writing

/-! # Written lexemes

A word, a number, a string or an attribute's name that is written out is recognised again, when what
follows does not continue it.
-/

namespace SchemaMigration.Grammar

open ArgumentText (insideString isDigits isQuotable)
open Text (isBlank isDigit isLetter isSpace isWord isWordChar isWordStart run word)

/-! ## Runs and words -/

section Words

variable {p : Char → Bool} {c : Char} {cs rest : List Char}

theorem takeWhile_of_head (h : cs.head?.any p = false) : cs.takeWhile p = [] := by
  cases cs with
  | nil => rfl
  | cons c cs => rw [List.takeWhile_cons_of_neg (by simpa using h)]

theorem dropWhile_of_head (h : cs.head?.any p = false) : cs.dropWhile p = cs := by
  cases cs with
  | nil => rfl
  | cons c cs => rw [List.dropWhile_cons_of_neg (by simpa using h)]

theorem takeWhile_append_of_head (hcs : ∀ c ∈ cs, p c = true) (hrest : rest.head?.any p = false) :
    (cs ++ rest).takeWhile p = cs := by
  rw [List.takeWhile_append_of_pos hcs, takeWhile_of_head hrest, List.append_nil]

theorem dropWhile_append_of_head (hcs : ∀ c ∈ cs, p c = true) (hrest : rest.head?.any p = false) :
    (cs ++ rest).dropWhile p = rest := by
  rw [List.dropWhile_append_of_pos hcs, dropWhile_of_head hrest]

theorem isWord_iff : isWord cs = true ↔
    ∃ c w, cs = c :: w ∧ isWordStart c = true ∧ ∀ d ∈ w, isWordChar d = true := by
  cases cs with
  | nil => simp [isWord, word]
  | cons c w =>
      by_cases hc : isWordStart c = true
      · have hrest : w.dropWhile isWordChar = [] ↔ ∀ d ∈ w, isWordChar d = true :=
          List.dropWhile_eq_nil_iff
        rw [isWord, word, if_pos hc]
        cases hdrop : w.dropWhile isWordChar <;> simp_all
      · simp [isWord, word, hc]

theorem word_append (h : isWord cs = true) (hrest : rest.head?.any isWordChar = false) :
    word (cs ++ rest) = some (cs, rest) := by
  obtain ⟨c, w, rfl, hc, hw⟩ := isWord_iff.mp h
  rw [List.cons_append, word, if_pos hc, takeWhile_append_of_head hw hrest,
    dropWhile_append_of_head hw hrest]

theorem word_eq_none (h : cs.head?.any isWordStart = false) : word cs = none := by
  cases cs with
  | nil => rfl
  | cons c cs => rw [word, if_neg (by simpa using h)]

theorem isWordChar_of_isWordStart (h : isWordStart c = true) : isWordChar c = true := by
  simp only [isWordStart, isWordChar, Bool.or_eq_true] at h ⊢
  tauto

theorem isWordChar_of_isDigit (h : isDigit c = true) : isWordChar c = true := by
  rw [isWordChar, h, Bool.or_true, Bool.true_or]

theorem isWordStart_of_isDigit (h : isDigit c = true) : isWordStart c = false := by
  refine Bool.eq_false_iff.mpr fun hstart => ?_
  simp only [isWordStart, isLetter, isDigit, Bool.or_eq_true, Bool.and_eq_true, decide_eq_true_eq,
    beq_iff_eq, Char.le_def, UInt32.le_iff_toNat_le] at h hstart
  have hdigit : c.toNat ≤ 57 := h.2
  rcases hstart with (hlower | hupper) | rfl
  · have hletter : 97 ≤ c.toNat := hlower.1
    omega
  · have hletter : 65 ≤ c.toNat := hupper.1
    omega
  · revert hdigit
    decide

theorem isIdentifier_boolean (b : Bool) : IsIdentifier (toString b) := by
  cases b <;> rfl

theorem isWordChar_of_mem (h : isWord cs = true) (hc : c ∈ cs) : isWordChar c = true := by
  obtain ⟨d, w, rfl, hd, hw⟩ := isWord_iff.mp h
  rcases List.mem_cons.mp hc with rfl | hc
  · exact isWordChar_of_isWordStart hd
  · exact hw c hc

theorem isSolid_of_isWordChar (h : isWordChar c = true) : isSolid c = true := by
  simp only [isSolid, Parser.isGap, Bool.and_eq_true, Bool.not_eq_true', Bool.or_eq_false_iff,
    beq_eq_false_iff_ne, bne_iff_ne]
  refine ⟨⟨⟨⟨?_, ?_⟩, ?_⟩, ?_⟩, ?_⟩ <;> (rintro rfl; revert h; decide)

theorem isBlank_of_isWordChar (h : isWordChar c = true) : isBlank c = false := by
  have hrange : c.toNat = 95 ∨ 48 ≤ c.toNat ∧ c.toNat ≤ 57 ∨ 65 ≤ c.toNat ∧ c.toNat ≤ 90 ∨
      97 ≤ c.toNat ∧ c.toNat ≤ 122 := by
    simp only [isWordChar, isLetter, isDigit, Bool.or_eq_true, Bool.and_eq_true, decide_eq_true_eq,
      beq_iff_eq, Char.le_def, UInt32.le_iff_toNat_le] at h
    rcases h with ((h | h) | h) | rfl
    · exact .inr (.inr (.inr h))
    · exact .inr (.inr (.inl h))
    · exact .inr (.inl h)
    · exact .inl rfl
  simp only [isBlank, Bool.or_eq_false_iff, Bool.and_eq_false_iff, decide_eq_false_iff_not,
    beq_eq_false_iff_ne]
  omega

theorem isSpace_of_isWordChar (h : isWordChar c = true) : isSpace c = false := by
  have hblank := isBlank_of_isWordChar h
  simp only [isBlank, Bool.or_eq_false_iff] at hblank
  simp only [isSpace, Bool.or_eq_false_iff]
  tauto

theorem run_append (hcs : cs ≠ []) (hp : ∀ c ∈ cs, p c = true) (hrest : rest.head?.any p = false) :
    run p (cs ++ rest) = some (cs, rest) := by
  cases cs with
  | nil => exact absurd rfl hcs
  | cons c cs =>
      have htail : ∀ d ∈ cs, p d = true := fun d hd => hp d (List.mem_cons_of_mem _ hd)
      rw [List.cons_append, run, if_pos (hp c List.mem_cons_self),
        takeWhile_append_of_head htail hrest, dropWhile_append_of_head htail hrest]

end Words

/-! ## Fixed words -/

section FixedWords

variable {text : String} {cs rest : List Char}

theorem wholeWord_append (hrest : rest.head?.any isWordChar = false) :
    Lexeme.wholeWord text (text.toList ++ rest) = some (text.toList, rest) := by
  rw [Lexeme.wholeWord, after?_eq_some_iff.mpr rfl, Option.bind_some, Lexeme.endWord,
    if_neg (by simp [hrest])]

/-- A word is not taken for another one. -/
theorem wholeWord_eq_none (htext : ∀ c ∈ text.toList, isWordChar c = true)
    (hcs : ∀ c ∈ cs, isWordChar c = true) (hrest : rest.head?.any isWordChar = false)
    (hne : cs ≠ text.toList) : Lexeme.wholeWord text (cs ++ rest) = none := by
  rw [Lexeme.wholeWord, Option.bind_eq_none_iff]
  intro r hr
  rcases List.append_eq_append_iff.mp (after?_eq_some_iff.mp hr) with
    ⟨further, htext', hrest'⟩ | ⟨further, hcs', hr'⟩
  · -- The fixed word is the longer one, and would go on into the rest.
    cases further with
    | nil => exact absurd (by simpa using htext'.symm) hne
    | cons d further =>
        have hd := htext d (by simp [htext'])
        rw [hrest'] at hrest
        simp [hd] at hrest
  · cases further with
    | nil => exact absurd (by simpa using hcs') hne
    | cons d further =>
        have hd := hcs d (by simp [hcs'])
        rw [Lexeme.endWord, if_pos (by simp [hr', hd])]

end FixedWords

/-! ## Numbers -/

section Numbers

variable {cs rest : List Char}

theorem isDigits_iff : isDigits cs = true ↔ cs ≠ [] ∧ ∀ c ∈ cs, isDigit c = true := by
  simp [isDigits]

theorem fraction_append (h : IsFraction cs) (hdigit : rest.head?.any isDigit = false)
    (hpoint : rest.head? ≠ some '.') : Lexeme.fraction (cs ++ rest) = (cs, rest) := by
  rcases h with rfl | ⟨digits, hdigits, rfl⟩
  · rw [List.nil_append, Lexeme.fraction]
    rintro rest' rfl
    exact absurd rfl hpoint
  · obtain ⟨hne, hall⟩ := isDigits_iff.mp hdigits
    rw [List.cons_append, Lexeme.fraction, run_append hne hall hdigit]

theorem unsigned_append {whole fraction : List Char} (hwhole : isDigits whole = true)
    (hfraction : IsFraction fraction) (hdigit : rest.head?.any isDigit = false)
    (hpoint : rest.head? ≠ some '.') :
    Lexeme.unsigned (whole ++ fraction ++ rest) = some (whole ++ fraction, rest) := by
  obtain ⟨hne, hall⟩ := isDigits_iff.mp hwhole
  have hhead : (fraction ++ rest).head?.any isDigit = false := by
    rcases hfraction with rfl | ⟨digits, _, rfl⟩
    · exact hdigit
    · rfl
  rw [Lexeme.unsigned, List.append_assoc, run_append hne hall hhead]
  simp only [Option.map_some, fraction_append hfraction hdigit hpoint]

theorem number_append {s : String} (h : IsNumeral s) (hdigit : rest.head?.any isDigit = false)
    (hpoint : rest.head? ≠ some '.') :
    Lexeme.number (s.toList ++ rest) = some (s.toList, rest) := by
  obtain ⟨sign, whole, fraction, hsign, hwhole, hfraction, heq⟩ := h
  have hunsigned := unsigned_append hwhole hfraction hdigit hpoint
  rw [heq]
  rcases hsign with rfl | rfl
  · obtain ⟨hne, hall⟩ := isDigits_iff.mp hwhole
    rw [List.nil_append, Lexeme.number, hunsigned]
    intro cs hminus
    cases whole with
    | nil => exact hne rfl
    | cons d whole =>
        cases hminus
        exact absurd (hall '-' List.mem_cons_self) (by decide)
  · simp only [List.cons_append, List.nil_append, Lexeme.number, hunsigned, Option.map_some]

theorem isNumeral_head {s : String} (h : IsNumeral s) :
    ∃ c cs, s.toList = c :: cs ∧ (c = '-' ∨ isDigit c = true) := by
  obtain ⟨sign, whole, fraction, hsign, hwhole, _, heq⟩ := h
  obtain ⟨hne, hall⟩ := isDigits_iff.mp hwhole
  rcases hsign with rfl | rfl
  · obtain ⟨d, ds, rfl⟩ := List.exists_cons_of_ne_nil hne
    exact ⟨d, ds ++ fraction, heq, .inr (hall d List.mem_cons_self)⟩
  · exact ⟨'-', whole ++ fraction, heq, .inl rfl⟩

theorem number_eq_none (h : cs.head?.any isWordStart = true) : Lexeme.number cs = none := by
  cases cs with
  | nil => cases h
  | cons c cs =>
      have hstart : isWordStart c = true := h
      have hdigit : isDigit c = false := by
        refine Bool.eq_false_iff.mpr fun hdigit => ?_
        rw [isWordStart_of_isDigit hdigit] at hstart
        cases hstart
      rw [Lexeme.number, Lexeme.unsigned, run, if_neg (by simp [hdigit]), Option.map_none]
      rintro cs ⟨⟩
      revert hstart
      decide

end Numbers

/-! ## Names of attributes -/

section Names

variable {rest : List Char}

theorem dotted_append {further : List String} (h : ∀ w ∈ further, IsIdentifier w) {bound : Nat}
    (hbound : further.length ≤ bound) (hword : rest.head?.any isWordChar = false)
    (hpoint : rest.head? ≠ some '.') :
    Lexeme.dotted bound (further.flatMap (fun w => '.' :: w.toList) ++ rest) =
      (further.flatMap (fun w => '.' :: w.toList), rest) := by
  induction further generalizing bound with
  | nil =>
      rw [List.flatMap_nil, List.nil_append, Lexeme.dotted]
      rintro bound' rest' rfl rfl
      exact absurd rfl hpoint
  | cons w further ih =>
      obtain ⟨bound, rfl⟩ : ∃ n, bound = n + 1 := ⟨bound - 1, by simp at hbound; omega⟩
      have hhead : (further.flatMap (fun w => '.' :: w.toList) ++ rest).head?.any isWordChar =
          false := by
        cases further with
        | nil => exact hword
        | cons => rfl
      rw [List.flatMap_cons, List.append_assoc, List.cons_append, Lexeme.dotted,
        word_append (h w List.mem_cons_self) hhead]
      simp only [ih (fun w hw => h w (List.mem_cons_of_mem _ hw)) (by simpa using hbound)]

theorem attributeName_append {s : String} (h : IsDottedName s)
    (hword : rest.head?.any isWordChar = false) (hpoint : rest.head? ≠ some '.') :
    Lexeme.attributeName (s.toList ++ rest) = some (s.toList, rest) := by
  obtain ⟨w, further, hw, hfurther, heq⟩ := h
  have hhead : (further.flatMap (fun w => '.' :: w.toList) ++ rest).head?.any isWordChar =
      false := by
    cases further with
    | nil => exact hword
    | cons => rfl
  have hbound : further.length ≤ (further.flatMap (fun w => '.' :: w.toList) ++ rest).length := by
    clear heq hhead hfurther
    induction further with
    | nil => exact Nat.zero_le _
    | cons w further ih =>
        simp only [List.flatMap_cons, List.append_assoc, List.length_append, List.length_cons]
          at ih ⊢
        omega
  rw [heq, List.append_assoc, Lexeme.attributeName, word_append hw hhead]
  simp only [Option.map_some, dotted_append hfurther hbound hword hpoint]

theorem isDottedName_of_isIdentifier {s : String} (h : IsIdentifier s) : IsDottedName s :=
  ⟨s, [], h, List.forall_mem_nil _, by simp⟩

theorem head_isDottedName {s : String} (h : IsDottedName s) :
    s.toList.head?.any isWordStart = true := by
  obtain ⟨first, further, hfirst, _, heq⟩ := h
  obtain ⟨c, w, hword, hc, _⟩ := isWord_iff.mp hfirst
  rw [heq, hword]
  exact hc

theorem head_isDottedName_append {s : String} (h : IsDottedName s) (cs : List Char) :
    (s.toList ++ cs).head?.any isWordStart = true := by
  have hhead := head_isDottedName h
  cases hs : s.toList with
  | nil => simp [hs] at hhead
  | cons c w => rwa [hs] at hhead

end Names

/-! ## Strings -/

section Strings

/-- A character is written either as itself or behind a backslash. -/
theorem escapeChar_cases (c : Char) :
    (∃ d, escapeChar c = ['\\', d] ∧ d ≠ '\n' ∧
      ∀ cs, unescape ('\\' :: d :: cs) = c :: unescape cs) ∨
      escapeChar c = [c] ∧ c ≠ '"' ∧ c ≠ '\\' ∧ c ≠ '\n' ∧ c ≠ '\r' := by
  unfold escapeChar
  split
  next h =>
    refine .inl ⟨c, rfl, ?_, ?_⟩ <;> rcases h with rfl | rfl
    · decide
    · decide
    · exact fun cs => rfl
    · exact fun cs => rfl
  next h =>
    split
    next h => exact .inl ⟨'n', rfl, by decide, fun cs => by rw [h]; rfl⟩
    next hfeed =>
      split
      next h => exact .inl ⟨'r', rfl, by decide, fun cs => by rw [h]; rfl⟩
      next hreturn => exact .inr ⟨rfl, fun hc => h (.inl hc), fun hc => h (.inr hc), hfeed, hreturn⟩

theorem stringInner_escape (cs rest : List Char) :
    Lexeme.stringInner (escape cs ++ '"' :: rest) = (escape cs, '"' :: rest) := by
  induction cs with
  | nil => rfl
  | cons c cs ih =>
      rw [escape, List.flatMap_cons, ← escape, List.append_assoc]
      rcases escapeChar_cases c with ⟨d, heq, _, _⟩ | ⟨heq, hquote, hbackslash, hfeed, hreturn⟩
      · rw [heq, List.cons_append, List.cons_append, List.nil_append, Lexeme.stringInner, ih]
        rfl
      · have hends : Lexeme.endsString c = false := by
          simp [Lexeme.endsString, hquote, hbackslash, hfeed, hreturn]
        rw [heq, List.cons_append, List.nil_append, Lexeme.stringInner, hends, ih]
        · rfl
        · rintro d ds rfl
          exact absurd rfl hbackslash

theorem unescape_escape (cs : List Char) : unescape (escape cs) = cs := by
  induction cs with
  | nil => rfl
  | cons c cs ih =>
      rw [escape, List.flatMap_cons, ← escape]
      rcases escapeChar_cases c with ⟨d, heq, _, hunescape⟩ | ⟨heq, _, hbackslash, _, _⟩
      · rw [heq, List.cons_append, List.cons_append, List.nil_append, hunescape, ih]
      · rw [heq, List.cons_append, List.nil_append, unescape, ih] <;> intros <;> contradiction

theorem insideString_escape (cs rest : List Char) :
    insideString (escape cs ++ '"' :: rest) = some (escape cs, rest) := by
  induction cs with
  | nil => rfl
  | cons c cs ih =>
      rw [escape, List.flatMap_cons, ← escape, List.append_assoc]
      rcases escapeChar_cases c with ⟨d, heq, hfeed, _⟩ | ⟨heq, hquote, hbackslash, _, _⟩
      · rw [heq, List.cons_append, List.cons_append, List.nil_append, insideString, if_neg hfeed,
          ih]
        rfl
      · rw [heq, List.cons_append, List.nil_append, insideString, if_neg hbackslash, ih]
        · rfl
        · exact hquote
        · rintro d ds rfl
          exact absurd rfl hbackslash

theorem isQuotable_escape (cs : List Char) : isQuotable '"' (escape cs) = true := by
  induction cs with
  | nil => rfl
  | cons c cs ih =>
      rw [escape, List.flatMap_cons, ← escape]
      rcases escapeChar_cases c with ⟨d, heq, _, _⟩ | ⟨heq, hquote, hbackslash, _, _⟩
      · rw [heq, List.cons_append, List.cons_append, List.nil_append, isQuotable, ih]
      · rw [heq, List.cons_append, List.nil_append, isQuotable, ih]
        · simp [hquote, hbackslash]
        · rintro d ds rfl
          exact absurd rfl hbackslash

end Strings

end SchemaMigration.Grammar
