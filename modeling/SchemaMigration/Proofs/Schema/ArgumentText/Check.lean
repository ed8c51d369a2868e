import SchemaMigration.Proofs.Schema.ArgumentText.Occurrence
import SchemaMigration.Proofs.Text.Trimming
import SchemaMigration.Schema.ArgumentText.Interpretation

/-! # Expressions of check constraints

The expression of a check constraint is the raw text, without blanks and commas at its ends, as
long as no name is given anywhere in the text. A name is looked for in the text as it stands: one
within a string literal or within brackets of the expression is taken out too.
-/

namespace SchemaMigration.ArgumentText

open Grammar (isBlank_of_isWordChar)
open Text (exists_eq_stripBy isBlank isSpace isWordChar strip stripBy stripBy_surround)

/-! ## Names in a text -/

/-- A name as it is written: the label, a colon, and a string in double quotes. -/
def nameText (gap gap' inner : List Char) : List Char :=
  "name".toList ++ (gap ++ ':' :: (gap' ++ '"' :: (inner ++ ['"'])))

/-- A name that is given in a text, where no word goes on before its label. -/
structure NameIn (text before inner after : List Char) : Prop where
  apart : before.getLast?.any isWordChar = false
  written : ∃ gap gap', (∀ c ∈ gap, isSpace c = true) ∧ (∀ c ∈ gap', isSpace c = true) ∧
    text = before ++ (nameText gap gap' inner ++ after)
  inside : IsInside inner

section Names

variable {text before inner after : List Char}

theorem occursIn_nameForm_iff :
    nameForm.OccursIn false text before inner after ↔ NameIn text before inner after := by
  have hapart : endsInWord false before = before.getLast?.any isWordChar := by
    rw [endsInWord]
    cases before.getLast? <;> rfl
  constructor
  · rintro ⟨s, -, rfl, hform⟩
    obtain ⟨hword, gap, gap', rest, hgap, hgap', -, rfl, hvalue⟩ := labelled_eq_some_iff.mp hform
    obtain ⟨rfl, hinside⟩ := quotedString_eq_some_iff.mp hvalue
    refine ⟨hapart ▸ hword, ⟨gap, gap', hgap, hgap', ?_⟩, hinside⟩
    simp [nameText]
  · rintro ⟨hword, ⟨gap, gap', hgap, hgap', rfl⟩, hinside⟩
    refine ⟨nameText gap gap' inner ++ after, by simp [nameText], rfl, ?_⟩
    refine labelled_eq_some_iff.mpr ⟨hapart.trans hword, gap, gap', '"' :: (inner ++ '"' :: after),
      hgap, hgap', rfl, by simp [nameText], ?_⟩
    exact quotedString_eq_some_iff.mpr ⟨rfl, hinside⟩

/-- Blanks may stand around a text in which a name is given. -/
theorem NameIn.surround (h : NameIn text before inner after) {lead : List Char}
    (hlead : ∀ c ∈ lead, isBlank c = true) (trail : List Char) :
    NameIn (lead ++ (text ++ trail)) (lead ++ before) inner (after ++ trail) where
  apart := by
    rw [List.getLast?_append]
    cases hbefore : before.getLast? with
    | some c => simpa [hbefore] using h.apart
    | none =>
        refine Bool.eq_false_iff.mpr fun hany => ?_
        obtain ⟨c, hlast, hword⟩ := (Option.any_eq_true _ _).mp hany
        have hblank := hlead c (List.mem_of_getLast? hlast)
        rw [isBlank_of_isWordChar hword] at hblank
        cases hblank
  written := by
    obtain ⟨gap, gap', hgap, hgap', rfl⟩ := h.written
    exact ⟨gap, gap', hgap, hgap', by simp⟩
  inside := h.inside

/-- Blanks at the front of a text stand before every other character in it. -/
theorem exists_eq_lead_append {lead cs rest : List Char} {c : Char}
    (hlead : ∀ d ∈ lead, isBlank d = true) (hc : isBlank c = false)
    (h : lead ++ cs = before ++ c :: rest) : ∃ b, before = lead ++ b ∧ cs = b ++ c :: rest := by
  rcases List.append_eq_append_iff.mp h with hbehind | ⟨further, rfl, hrest⟩
  · exact hbehind
  · cases further with
    | nil => exact ⟨[], by simp, hrest.symm⟩
    | cons d further =>
        obtain rfl := (List.cons.inj hrest).1
        rw [hlead c (by simp)] at hc
        cases hc

/-- A name that is given in a text with blanks around it is given in the text. -/
theorem NameIn.of_surround {lead trail : List Char} (hlead : ∀ c ∈ lead, isBlank c = true)
    (htrail : ∀ c ∈ trail, isBlank c = true)
    (h : NameIn (lead ++ (text ++ trail)) before inner after) :
    ∃ b a, before = lead ++ b ∧ after = a ++ trail ∧ NameIn text b inner a := by
  obtain ⟨gap, gap', hgap, hgap', htext⟩ := h.written
  have hopening : lead ++ (text ++ trail) =
      before ++ 'n' :: ("ame".toList ++
        (gap ++ ':' :: (gap' ++ '"' :: (inner ++ '"' :: after)))) := by
    rw [htext]
    simp [nameText]
  obtain ⟨b, rfl, hbehind⟩ := exists_eq_lead_append hlead (by decide) hopening
  have hclosing : text ++ trail =
      (b ++ ("name".toList ++ (gap ++ ':' :: (gap' ++ '"' :: inner)))) ++ '"' :: after := by
    rw [hbehind]
    simp
  obtain ⟨a, rfl, rfl⟩ := exists_eq_append_of_notMem (fun hquote => by cases htrail _ hquote) hclosing
  refine ⟨b, a, rfl, rfl, ?_, ⟨gap, gap', hgap, hgap', by simp [nameText]⟩, h.inside⟩
  have hapart := h.apart
  rw [List.getLast?_append] at hapart
  cases hb : b.getLast? with
  | none => rfl
  | some c => simpa [hb] using hapart

end Names

/-! ## The expression -/

/-- A text without blanks and commas at its ends. -/
def withoutMargins (cs : List Char) : List Char :=
  stripBy (fun c => isBlank c || c == ',') cs

theorem withoutMargins_surround {lead trail : List Char} (hlead : ∀ c ∈ lead, isBlank c = true)
    (htrail : ∀ c ∈ trail, isBlank c = true) (cs : List Char) :
    withoutMargins (lead ++ (cs ++ trail)) = withoutMargins cs :=
  stripBy_surround (fun c hc => by rw [hlead c hc, Bool.true_or])
    fun c hc => by rw [htrail c hc, Bool.true_or]

/-- Without a name in it a text is the expression, and with one it is what the first one leaves. -/
theorem check_eq_ok {text : List Char} {c : CheckArgs} (h : check text = .ok c) :
    (c = ⟨String.ofList (withoutMargins text), none⟩ ∧
        ∀ before inner after, ¬NameIn text before inner after) ∨
      ∃ before inner after, NameIn text before inner after ∧
        (∀ b i a, NameIn text b i a → before.length ≤ b.length) ∧
          c = ⟨String.ofList (withoutMargins (before ++ after)), some (unescaped inner)⟩ := by
  have hc (name : Option (List Char)) (left : List Char)
      (hextract : extractOptional nameForm text = (name, left)) :
      c = ⟨String.ofList (withoutMargins left), name.map unescaped⟩ := by
    rw [check, hextract] at h
    dsimp only at h
    split at h
    · cases h
    · exact (Except.ok.inj h).symm
  cases hextract : extract nameForm text with
  | none =>
      refine .inl ⟨hc none text (by rw [extractOptional, hextract]), fun before inner after h => ?_⟩
      exact extractAfter_eq_none_iff.mp hextract _ _ _ (occursIn_nameForm_iff.mpr h)
  | some found =>
      obtain ⟨inner, left⟩ := found
      obtain ⟨before, after, hoccurs, rfl, hleast⟩ := extractAfter_eq_some_iff.mp hextract
      refine .inr ⟨before, inner, after, occursIn_nameForm_iff.mp hoccurs, fun b i a h => ?_,
        hc (some inner) (before ++ after) (by rw [extractOptional, hextract])⟩
      exact hleast b i a (occursIn_nameForm_iff.mpr h)

theorem check_of_interpret {raw : String} {c : CheckArgs}
    (h : interpret "check" raw = .ok (.check c)) : check (strip raw.toList) = .ok c := by
  rw [interpret, if_neg (by decide : ¬"check" = "relation"),
    if_neg (by decide : ¬("check" = "index" ∨ "check" = "unique" ∨ "check" = "id")),
    if_pos rfl] at h
  split at h
  · cases h
  · cases hcheck : check (strip raw.toList) with
    | error fault =>
        rw [hcheck] at h
        cases h
    | ok c' =>
        rw [hcheck] at h
        cases h
        rfl

/-- The expression of a check constraint is its raw text, without blanks and commas at the ends, and
the constraint has no name, exactly when no name is given anywhere in the text. Otherwise the first
name in the text is the name of the constraint, and the text without it is the expression. -/
theorem check_keeps_text_iff {raw : String} {c : CheckArgs}
    (h : interpret "check" raw = .ok (.check c)) :
    (c = ⟨String.ofList (withoutMargins raw.toList), none⟩ ↔
        ∀ before inner after, ¬NameIn raw.toList before inner after) ∧
      (c = ⟨String.ofList (withoutMargins raw.toList), none⟩ ∨
        ∃ before inner after, NameIn raw.toList before inner after ∧
          (∀ b i a, NameIn raw.toList b i a → before.length ≤ b.length) ∧
            c = ⟨String.ofList (withoutMargins (before ++ after)), some (unescaped inner)⟩) := by
  obtain ⟨lead, trail, hraw, hlead, htrail⟩ := exists_eq_stripBy isBlank raw.toList
  change raw.toList = lead ++ (strip raw.toList ++ trail) at hraw
  have hcheck := check_eq_ok (check_of_interpret h)
  have hmargins := withoutMargins_surround hlead htrail
  generalize strip raw.toList = text at hraw hcheck
  rw [hraw, hmargins]
  rcases hcheck with ⟨rfl, hnone⟩ | ⟨before, inner, after, hname, hleast, rfl⟩
  · refine ⟨iff_of_true rfl fun before inner after hname => ?_, .inl rfl⟩
    obtain ⟨b, a, -, -, hname⟩ := hname.of_surround hlead htrail
    exact hnone b inner a hname
  · have hsurround := hname.surround hlead trail
    refine ⟨iff_of_false (by simp) fun hnone => hnone _ _ _ hsurround, .inr ?_⟩
    refine ⟨lead ++ before, inner, after ++ trail, hsurround, fun b i a hother => ?_, ?_⟩
    · obtain ⟨b, a, rfl, -, hother⟩ := hother.of_surround hlead htrail
      simpa using hleast b i a hother
    · rw [List.append_assoc, ← List.append_assoc before, hmargins]

/-- A price is compared with a string literal that reads like a name. The grammar accepts the text
as one raw argument, whose only piece is no name, but the constraint is another one. -/
theorem check_keeps_text_iff_of_price :
    Grammar.Lexeme.rawArgument "price > 'name: \"x\"')".toList =
        some ("price > 'name: \"x\"'".toList, [')']) ∧
      pieces "price > 'name: \"x\"'".toList = ["price > 'name: \"x\"'".toList] ∧
      nameForm false "price > 'name: \"x\"'".toList = none ∧
      interpret "check" "price > 'name: \"x\"'" = .ok (.check ⟨"price > ''", some "x"⟩) ∧
      ∃ before inner after, NameIn "price > 'name: \"x\"'".toList before inner after := by
  have hread : interpret "check" "price > 'name: \"x\"'" =
      .ok (.check ⟨"price > ''", some "x"⟩) := by
    decide
  refine ⟨by decide, by decide, by decide, hread, ?_⟩
  by_contra hnone
  have hkept := (check_keeps_text_iff hread).1.mpr fun before inner after hname =>
    hnone ⟨before, inner, after, hname⟩
  exact absurd hkept (by decide)

end SchemaMigration.ArgumentText
