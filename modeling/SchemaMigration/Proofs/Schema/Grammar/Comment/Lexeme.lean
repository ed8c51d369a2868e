import SchemaMigration.Proofs.Schema.Grammar.Comment.Piece

/-! # Lexemes end before a comment

No lexeme reaches into a blank or a comment that stands behind it: what a scanner recognises before one
does not depend on what it is. Strings and attributes with their arguments, which may hold blanks and
slashes, are read as a whole.
-/

namespace SchemaMigration.Grammar

open SchemaMigration.Grammar.Parser
open Text (byteLength isDigit isWordChar isWordStart run word)

/-! ## Scanners -/

/-- What a scanner recognises does not depend on a gap behind it. -/
def EndsAtGap (scan : Text.Scanner) : Prop :=
  ∀ cs gap, StartsGap gap → scan (cs ++ gap) = (scan cs).map fun x => (x.1, x.2 ++ gap)

section Scanners

variable {p : Char → Bool} {gap : List Char}

theorem takeWhile_append_gap (hgap : gap.head?.any p = false) (cs : List Char) :
    (cs ++ gap).takeWhile p = cs.takeWhile p := by
  induction cs with
  | nil => exact takeWhile_of_head hgap
  | cons c cs ih =>
      rw [List.cons_append, List.takeWhile_cons, List.takeWhile_cons, ih]

theorem dropWhile_append_gap (hgap : gap.head?.any p = false) (cs : List Char) :
    (cs ++ gap).dropWhile p = cs.dropWhile p ++ gap := by
  induction cs with
  | nil => exact dropWhile_of_head hgap
  | cons c cs ih =>
      rw [List.cons_append, List.dropWhile_cons, List.dropWhile_cons, ih]
      split <;> rfl

theorem StartsGap.head_any (h : StartsGap gap) (hspace : p ' ' = false) (hslash : p '/' = false) :
    gap.head?.any p = false := by
  obtain ⟨c, rest, rfl, rfl | rfl⟩ := h
  · exact hspace
  · exact hslash

theorem head?_any_append_gap (hgap : gap.head?.any p = false) (cs : List Char) :
    (cs ++ gap).head?.any p = cs.head?.any p := by
  cases cs with
  | nil => exact hgap
  | cons c cs => rfl

theorem endsAtGap_run (hspace : p ' ' = false) (hslash : p '/' = false) : EndsAtGap (run p) := by
  intro cs gap h
  have hgap := h.head_any hspace hslash
  cases cs with
  | nil =>
      obtain ⟨c, rest, rfl, hc⟩ := h
      have hnot : p c = false := hgap
      simp [run, hnot]
  | cons c cs =>
      rw [List.cons_append, run, run, takeWhile_append_gap hgap, dropWhile_append_gap hgap]
      split <;> rfl

theorem endsAtGap_word : EndsAtGap word := by
  intro cs gap h
  have hgap : gap.head?.any isWordChar = false := h.head_any rfl rfl
  cases cs with
  | nil =>
      obtain ⟨c, rest, rfl, hc⟩ := h
      rcases hc with rfl | rfl <;> rfl
  | cons c cs =>
      rw [List.cons_append, word, word, takeWhile_append_gap hgap, dropWhile_append_gap hgap]
      split <;> rfl

theorem after?_append_gap {expected : List Char} (hexpected : ∀ c ∈ expected, c ≠ ' ' ∧ c ≠ '/')
    (h : StartsGap gap) (cs : List Char) :
    Text.after? expected (cs ++ gap) = (Text.after? expected cs).map (· ++ gap) := by
  induction expected generalizing cs with
  | nil => rfl
  | cons e expected ih =>
      obtain ⟨he, hexpected⟩ := List.forall_mem_cons.mp hexpected
      cases cs with
      | nil =>
          obtain ⟨c, rest, rfl, hc⟩ := h
          have hne : e ≠ c := by
            rintro rfl
            exact hc.elim he.1 he.2
          simp [Text.after?, hne]
      | cons c cs =>
          rw [List.cons_append, Text.after?, Text.after?, ih hexpected]
          split <;> rfl

theorem endsAtGap_wholeWord {text : String} (htext : IsIdentifier text) :
    EndsAtGap (Lexeme.wholeWord text) := by
  intro cs gap h
  have hgap : gap.head?.any isWordChar = false := h.head_any rfl rfl
  have hchars : ∀ c ∈ text.toList, c ≠ ' ' ∧ c ≠ '/' := by
    intro c hc
    have hword := isWordChar_of_mem htext hc
    constructor <;> (rintro rfl; cases hword)
  rw [Lexeme.wholeWord, Lexeme.wholeWord, after?_append_gap hchars h]
  cases Text.after? text.toList cs with
  | none => rfl
  | some rest =>
      simp only [Option.map_some, Option.bind_some, Lexeme.endWord, head?_any_append_gap hgap]
      split <;> rfl

theorem endsAtGap_boolean : EndsAtGap Lexeme.boolean := by
  intro cs gap h
  have htrue : EndsAtGap (Lexeme.wholeWord "true") := endsAtGap_wholeWord (by decide)
  have hfalse : EndsAtGap (Lexeme.wholeWord "false") := endsAtGap_wholeWord (by decide)
  rw [Lexeme.boolean, Lexeme.boolean, htrue cs gap h, hfalse cs gap h]
  cases Lexeme.wholeWord "true" cs <;> rfl

theorem fraction_append_gap (h : StartsGap gap) (cs : List Char) :
    Lexeme.fraction (cs ++ gap) = ((Lexeme.fraction cs).1, (Lexeme.fraction cs).2 ++ gap) := by
  cases cs with
  | nil =>
      obtain ⟨c, rest, rfl, hc⟩ := h
      rcases hc with rfl | rfl <;> rfl
  | cons c cs =>
      by_cases hpoint : c = '.'
      · subst hpoint
        rw [List.cons_append, Lexeme.fraction, Lexeme.fraction, endsAtGap_run rfl rfl cs gap h]
        cases run isDigit cs <;> rfl
      · rw [List.cons_append, Lexeme.fraction, Lexeme.fraction]
        · rfl
        · rintro rest ⟨⟩
          exact hpoint rfl
        · rintro rest ⟨⟩
          exact hpoint rfl

theorem endsAtGap_unsigned : EndsAtGap Lexeme.unsigned := by
  intro cs gap h
  rw [Lexeme.unsigned, Lexeme.unsigned, endsAtGap_run rfl rfl cs gap h]
  cases run isDigit cs with
  | none => rfl
  | some x => simp [fraction_append_gap h]

theorem endsAtGap_number : EndsAtGap Lexeme.number := by
  intro cs gap h
  cases cs with
  | nil =>
      obtain ⟨c, rest, rfl, hc⟩ := h
      rcases hc with rfl | rfl <;> rfl
  | cons c cs =>
      by_cases hminus : c = '-'
      · subst hminus
        rw [List.cons_append, Lexeme.number, Lexeme.number, endsAtGap_unsigned cs gap h]
        cases Lexeme.unsigned cs <;> rfl
      · rw [Lexeme.number, Lexeme.number, endsAtGap_unsigned (c :: cs) gap h]
        · rintro rest ⟨⟩
          exact hminus rfl
        · rintro rest ⟨⟩
          exact hminus rfl

/-- Dotted words are read to their end, however many are looked for at most. -/
theorem dotted_append_gap (h : StartsGap gap) {bound : Nat} (cs : List Char) {bound' : Nat}
    (hbound : cs.length ≤ bound) (hbound' : cs.length ≤ bound') :
    Lexeme.dotted bound' (cs ++ gap) =
      ((Lexeme.dotted bound cs).1, (Lexeme.dotted bound cs).2 ++ gap) := by
  fun_induction Lexeme.dotted bound cs generalizing bound' with
  | case1 bound cs w after hword further rest heq ih =>
      obtain ⟨bound', rfl⟩ : ∃ n, bound' = n + 1 := ⟨bound' - 1, by simp at hbound'; omega⟩
      obtain ⟨-, rfl, -⟩ := word_eq_some hword
      simp only [List.length_cons, List.length_append] at hbound hbound'
      rw [List.cons_append, Lexeme.dotted, endsAtGap_word _ gap h, hword]
      simp only [Option.map_some, @ih bound' (by omega) (by omega), heq]
  | case2 bound cs hword =>
      obtain ⟨bound', rfl⟩ : ∃ n, bound' = n + 1 := ⟨bound' - 1, by simp at hbound'; omega⟩
      rw [List.cons_append, Lexeme.dotted, endsAtGap_word _ gap h, hword]
      rfl
  | case3 bound cs hpoint =>
      -- No further word follows, as the gap does not start with a point.
      have hhead : ∀ rest, cs ++ gap ≠ '.' :: rest := by
        intro rest heq
        cases cs with
        | nil =>
            obtain ⟨c, more, rfl, hc⟩ := h
            obtain ⟨rfl, -⟩ := List.cons.inj heq
            revert hc
            decide
        | cons c cs =>
            obtain ⟨rfl, -⟩ := List.cons.inj heq
            simp only [List.length_cons] at hbound
            exact hpoint (bound - 1) cs (by omega) rfl
      rw [Lexeme.dotted]
      exact fun _ rest _ heq => hhead rest heq

theorem endsAtGap_attributeName : EndsAtGap Lexeme.attributeName := by
  intro cs gap h
  rw [Lexeme.attributeName, Lexeme.attributeName, endsAtGap_word cs gap h]
  cases word cs with
  | none => rfl
  | some x =>
      obtain ⟨w, rest⟩ := x
      simp only [Option.map_some]
      rw [dotted_append_gap h rest (Nat.le_refl _) (by simp)]

end Scanners

/-! ## Lexemes side by side -/

section Plain

variable {cs l rest : List Char}

theorem isPlain_of_isWordChar {c : Char} (h : isWordChar c = true) : IsPlain c := by
  refine ⟨?_, ?_, ?_⟩ <;> (rintro rfl; revert h; decide)

theorem isPlain_of_isWord (h : Text.isWord l = true) : l ≠ [] ∧ ∀ c ∈ l, IsPlain c := by
  refine ⟨?_, fun c hc => isPlain_of_isWordChar (isWordChar_of_mem h hc)⟩
  rintro rfl
  cases h

theorem isPlain_of_wholeWord {text : String} (htext : IsIdentifier text)
    (h : Lexeme.wholeWord text cs = some (l, rest)) : l ≠ [] ∧ ∀ c ∈ l, IsPlain c := by
  obtain ⟨rfl, -, -⟩ := wholeWord_eq_some h
  exact isPlain_of_isWord htext

theorem isIdentifier_keyword (kind : BlockKind) : IsIdentifier kind.keyword := by
  cases kind <;> decide

theorem isPlain_of_keyword {kind : BlockKind} (h : Lexeme.keyword kind cs = some (l, rest)) :
    l ≠ [] ∧ ∀ c ∈ l, IsPlain c :=
  isPlain_of_wholeWord (isIdentifier_keyword kind) h

theorem isPlain_of_boolean (h : Lexeme.boolean cs = some (l, rest)) :
    l ≠ [] ∧ ∀ c ∈ l, IsPlain c := by
  obtain ⟨value, hvalue⟩ := boolean_eq_some h
  exact isPlain_of_wholeWord (isIdentifier_boolean value) hvalue

theorem isPlain_of_number (h : Lexeme.number cs = some (l, rest)) :
    l ≠ [] ∧ ∀ c ∈ l, IsPlain c := by
  obtain ⟨sign, whole, fraction, hsign, hwhole, hfraction, heq⟩ := (number_eq_some h).1
  obtain ⟨hne, hdigits⟩ := isDigits_iff.mp hwhole
  have hdigit : ∀ c, isDigit c = true → IsPlain c :=
    fun c hc => isPlain_of_isWordChar (isWordChar_of_isDigit hc)
  rw [String.toList_ofList] at heq
  subst heq
  refine ⟨by simp [hne], fun c hc => ?_⟩
  simp only [List.mem_append] at hc
  rcases hc with (hc | hc) | hc
  · rcases hsign with rfl | rfl
    · cases hc
    · obtain rfl := List.mem_singleton.mp hc
      decide
  · exact hdigit c (hdigits c hc)
  · rcases hfraction with rfl | ⟨digits, hfraction, rfl⟩
    · cases hc
    · rcases List.mem_cons.mp hc with rfl | hc
      · decide
      · exact hdigit c ((isDigits_iff.mp hfraction).2 c hc)

/-- The marks of the language are plain characters other than blanks. -/
theorem isPlain_of_mem_marks {text : String} (h : text ∈ marks) :
    text.toList ≠ [] ∧ ∀ c ∈ text.toList, IsPlain c ∧ c ≠ ' ' := by
  have hall : marks.all (fun mark => decide (mark.toList ≠ []) &&
      mark.toList.all fun c => decide (IsPlain c ∧ c ≠ ' ')) = true := by decide
  have htext := List.all_eq_true.mp hall text h
  simpa using htext

end Plain

namespace Exchange

variable {E : Exchange} {k l : Nat} {scan : Text.Scanner}

/-- A lexeme of plain characters is the same before the exchanged part. -/
theorem mirrors_lexeme (hcuts : Cuts scan) (hgap : EndsAtGap scan)
    (hplain : ∀ cs l rest, scan cs = some (l, rest) → l ≠ [] ∧ ∀ c ∈ l, IsPlain c) :
    E.Mirrors k l 1 (lexeme scan) (lexeme scan) := by
  apply mirrors_piece (readsPiece_lexeme scan)
  · intro cs l rest h
    have hpos := List.length_pos_iff.mpr (hplain cs l rest h).1
    rw [hcuts cs l rest h, List.length_append]
    omega
  · intro front h
    cases hscan : scan front with
    | none =>
        refine .inl fun gap hstarts => ?_
        rw [hgap front gap hstarts, hscan, Option.map_none]
    | some x =>
        obtain ⟨l, rest⟩ := x
        refine .inr ⟨l, rest, ?_, fun gap hstarts => ?_⟩
        · rw [hcuts _ _ _ hscan, List.append_assoc] at h
          exact h.of_plain (hplain _ _ _ hscan).2 (by simp)
        · rw [hgap front gap hstarts, hscan, Option.map_some]

theorem mirrors_word : E.Mirrors k l 1 (lexeme word) (lexeme word) :=
  mirrors_lexeme cuts_word endsAtGap_word fun _ _ _ h => isPlain_of_isWord (word_eq_some h).1

theorem mirrors_identifier : E.Mirrors k l 1 identifier identifier :=
  mirrors_word.symbol _

theorem mirrors_keyword (kind : BlockKind) :
    E.Mirrors k l 1 (lexeme (Lexeme.keyword kind)) (lexeme (Lexeme.keyword kind)) :=
  mirrors_lexeme (cuts_keyword kind) (endsAtGap_wholeWord (isIdentifier_keyword kind))
    fun _ _ _ => isPlain_of_keyword

theorem mirrors_boolean : E.Mirrors k l 1 (lexeme Lexeme.boolean) (lexeme Lexeme.boolean) :=
  mirrors_lexeme cuts_boolean endsAtGap_boolean fun _ _ _ => isPlain_of_boolean

theorem mirrors_number : E.Mirrors k l 1 (lexeme Lexeme.number) (lexeme Lexeme.number) :=
  mirrors_lexeme cuts_number endsAtGap_number fun _ _ _ => isPlain_of_number

theorem mirrors_exactly {text : String} (htext : text ∈ marks) :
    E.Mirrors k l 1 (exactly text) (exactly text) := by
  obtain ⟨hne, hchars⟩ := isPlain_of_mem_marks htext
  apply Mirrors.bind
  · apply mirrors_lexeme
    · intro cs w rest h
      obtain ⟨after, hafter, heq⟩ := Option.map_eq_some_iff.mp h
      cases heq
      exact after?_eq_some_iff.mp hafter
    · intro cs gap hstarts
      dsimp only
      rw [after?_append_gap (fun c hc => ⟨(hchars c hc).2, (hchars c hc).1.2.1⟩) hstarts]
      cases Text.after? text.toList cs <;> rfl
    · intro cs w rest h
      obtain ⟨after, -, heq⟩ := Option.map_eq_some_iff.mp h
      cases heq
      exact ⟨hne, fun c hc => (hchars c hc).1⟩
  · exact fun _ => mirrors_pure ()

end Exchange

end SchemaMigration.Grammar
