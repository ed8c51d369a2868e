import SchemaMigration.Proofs.Schema.Grammar.Lexeme

/-! # Extraction of labelled arguments

Arguments are written in a row, with commas between them. A form that is found in one of them and
misses those before it takes out exactly this one, and leaves nothing between its commas. A label is
missed by a text without a colon, and by an argument with another label.
-/

namespace SchemaMigration.ArgumentText

open Grammar (after?_eq_some_iff dropWhile_of_head isSpace_of_isWordChar row)
open Text (Scanner after? isSpace isWordChar)

/-- Whether a text goes on with a comma, if at all. -/
def Ends (cs : List Char) : Prop :=
  ∀ c ∈ cs.head?, c = ','

theorem ends_cons (cs : List Char) : Ends (',' :: cs) := by
  rintro c ⟨⟩
  rfl

theorem ends_further (texts : List (List Char)) :
    Ends (texts.flatMap fun t => ',' :: ' ' :: t) := by
  cases texts with
  | nil => exact fun c hc => nomatch hc
  | cons t texts => exact ends_cons _

theorem row_cons_of_ne_nil (text : List Char) {texts : List (List Char)} (h : texts ≠ []) :
    row (text :: texts) = text ++ ',' :: ' ' :: row texts := by
  cases texts with
  | nil => exact absurd rfl h
  | cons => rfl

/-! ## Labels -/

section Labels

variable {expected s rest : List Char} {label : String} {value : Scanner} {inWord : Bool}

theorem after?_append (hexpected : ',' ∉ expected) (hrest : Ends rest) :
    after? expected (s ++ rest) = (after? expected s).map (· ++ rest) := by
  induction expected generalizing s with
  | nil => rfl
  | cons e expected ih =>
      obtain ⟨hcomma, htail⟩ := List.ne_and_not_mem_of_not_mem_cons hexpected
      cases s with
      | nil =>
          cases rest with
          | nil => rfl
          | cons c rest =>
              cases hrest c rfl
              simp [after?, Ne.symm hcomma]
      | cons c s =>
          rw [List.cons_append, after?, after?, ih htail]
          split <;> rfl

theorem dropWhile_isSpace_append (hrest : Ends rest) :
    (s ++ rest).dropWhile isSpace = s.dropWhile isSpace ++ rest := by
  have hhead : rest.head?.any isSpace = false := by
    cases rest with
    | nil => rfl
    | cons c rest =>
        cases hrest c rfl
        rfl
  rw [List.dropWhile_append, dropWhile_of_head hhead]
  split
  next hnil => rw [List.isEmpty_iff.mp hnil, List.nil_append]
  next => rfl

/-- What follows a label, a colon and the blanks around the colon. -/
def afterLabel? (label : String) (inWord : Bool) (cs : List Char) : Option (List Char) :=
  if inWord then none
  else
    (after? label.toList cs).bind fun rest =>
      (after? [':'] (rest.dropWhile isSpace)).map fun rest => rest.dropWhile isSpace

theorem labelled_eq (label : String) (value : Scanner) (inWord : Bool) (cs : List Char) :
    labelled label value inWord cs = (afterLabel? label inWord cs).bind value := by
  unfold labelled afterLabel?
  split
  · rfl
  · simp only [Option.bind_assoc, Option.bind_map, Function.comp_def]

theorem afterLabel?_append (hlabel : ',' ∉ label.toList) (hrest : Ends rest) :
    afterLabel? label inWord (s ++ rest) = (afterLabel? label inWord s).map (· ++ rest) := by
  unfold afterLabel?
  split
  · rfl
  · have hcolon : ',' ∉ [':'] := by decide
    rw [after?_append hlabel hrest, Option.bind_map, Option.map_bind]
    congr 1
    funext t
    simp only [Function.comp_def, dropWhile_isSpace_append hrest, after?_append hcolon hrest,
      Option.map_map]

theorem afterLabel?_eq_none (h : ':' ∉ s) : afterLabel? label inWord s = none := by
  unfold afterLabel?
  split
  · rfl
  · refine Option.bind_eq_none_iff.mpr fun t ht => Option.map_eq_none_iff.mpr ?_
    refine Option.eq_none_iff_forall_ne_some.mpr fun r hr => h ?_
    have hcolon : ':' ∈ t.dropWhile isSpace := by
      rw [after?_eq_some_iff.mp hr]
      exact List.mem_cons_self
    rw [after?_eq_some_iff.mp ht]
    exact List.mem_append_right _ ((List.dropWhile_sublist _).subset hcolon)

end Labels

/-! ## Forms that miss and forms that find -/

namespace Form

/-- A form misses a text when it is only found behind it, if a comma follows. -/
def Misses (form : Form) (s : List Char) : Prop :=
  ∀ rest, Ends rest → extractAfter form false (s ++ rest) =
    (extractAfter form false rest).map fun (value, left) => (value, s ++ left)

/-- A form finds a whole text, up to the comma that follows, and in it a value. -/
def Finds (form : Form) (s value : List Char) : Prop :=
  s ≠ [] ∧ ∀ rest, Ends rest → form false (s ++ rest) = some (value, rest)

/-- A form that starts neither with a comma nor with a blank. -/
def IsSolid (form : Form) : Prop :=
  ∀ inWord cs, form inWord (',' :: cs) = none ∧ form inWord (' ' :: cs) = none

variable {form : Form} {s value : List Char} {before after texts : List (List Char)}

theorem misses_nil (form : Form) : form.Misses [] := by
  intro rest _
  simp

theorem IsSolid.extractAfter_comma (h : form.IsSolid) (inWord : Bool) (cs : List Char) :
    extractAfter form inWord (',' :: ' ' :: cs) =
      (extractAfter form false cs).map fun (value, left) => (value, ',' :: ' ' :: left) := by
  rw [extractAfter, (h _ _).1, Option.none_or, extractAfter, (h _ _).2, Option.none_or,
    Option.map_map]
  rfl

/-- A row in which a form misses the texts before one where it is found. -/
theorem Finds.extract_row (h : form.Finds s value) (hsolid : form.IsSolid)
    (hbefore : ∀ t ∈ before, form.Misses t) (after : List (List Char)) :
    extract form (row (before ++ s :: after)) = some (value, row (before ++ [] :: after)) := by
  rw [extract]
  induction before with
  | nil =>
      obtain ⟨c, cs, rfl⟩ := List.exists_cons_of_ne_nil h.1
      rw [List.nil_append, row, List.cons_append, extractAfter, ← List.cons_append,
        h.2 _ (ends_further after), Option.some_or]
      rfl
  | cons t before ih =>
      have hne (text : List Char) : before ++ text :: after ≠ [] := by simp
      rw [List.cons_append, row_cons_of_ne_nil t (hne s),
        hbefore t List.mem_cons_self _ (ends_cons _), hsolid.extractAfter_comma,
        ih fun t ht => hbefore t (List.mem_cons_of_mem _ ht),
        List.cons_append, row_cons_of_ne_nil t (hne [])]
      rfl

theorem IsSolid.extract_row_eq_none (hsolid : form.IsSolid) (h : ∀ t ∈ texts, form.Misses t) :
    extract form (row texts) = none := by
  rw [extract]
  induction texts with
  | nil => rfl
  | cons t texts ih =>
      have ht := h t List.mem_cons_self
      have htexts := ih fun t ht => h t (List.mem_cons_of_mem _ ht)
      cases texts with
      | nil => rw [row, ht _ (ends_further []), List.flatMap_nil, extractAfter, Option.map_none]
      | cons t' texts =>
          rw [row_cons_of_ne_nil t (by simp), ht _ (ends_cons _), hsolid.extractAfter_comma, htexts]
          rfl

end Form

/-! ## Labelled forms -/

/-- A word that can be a label. -/
structure IsLabel (label : String) : Prop where
  nonempty : label.toList ≠ []
  word : ∀ c ∈ label.toList, isWordChar c = true

/-- What is left in a row of an argument that was taken out of it. -/
def taken {α : Type} (o : Option α) : List (List Char) :=
  (o.map fun _ => []).toList

section Labelled

variable {label label' : String} {value value' : Scanner} {s : List Char}

namespace IsLabel

theorem not_mem {c : Char} (h : IsLabel label) (hc : isWordChar c = false) : c ∉ label.toList := by
  intro hmem
  rw [h.word c hmem] at hc
  cases hc

theorem labelled_eq_none {c : Char} (h : IsLabel label) (hc : isWordChar c = false) (inWord : Bool)
    (cs : List Char) : labelled label value inWord (c :: cs) = none := by
  obtain ⟨d, ds, hlabel⟩ := List.exists_cons_of_ne_nil h.nonempty
  have hne : d ≠ c := by
    rintro rfl
    exact h.not_mem hc (hlabel ▸ List.mem_cons_self)
  unfold labelled
  split
  · rfl
  · rw [hlabel, after?, if_neg hne, Option.bind_none]

theorem isSolid_labelled (h : IsLabel label) : (labelled label value).IsSolid :=
  fun inWord cs =>
    ⟨h.labelled_eq_none (by decide) inWord cs, h.labelled_eq_none (by decide) inWord cs⟩

/-- A label that does not occur with a suitable beginning of its value is missed. -/
theorem misses_of_extract_eq_none (hlabel : IsLabel label)
    (hvalue : ∀ t rest, Ends rest → value' t = none → value (t ++ rest) = none)
    (h : extract (labelled label value') s = none) : (labelled label value).Misses s := by
  intro rest hrest
  have hend : ∀ inWord, extractAfter (labelled label value) inWord rest =
      extractAfter (labelled label value) false rest := by
    intro inWord
    cases rest with
    | nil => rfl
    | cons c rest =>
        cases hrest c rfl
        rw [extractAfter, extractAfter, hlabel.labelled_eq_none (by decide),
          hlabel.labelled_eq_none (by decide)]
  suffices hany : ∀ inWord, extractAfter (labelled label value') inWord s = none →
      extractAfter (labelled label value) inWord (s ++ rest) =
        (extractAfter (labelled label value) false rest).map fun (v, left) => (v, s ++ left) from
    hany false h
  clear h
  induction s with
  | nil =>
      intro inWord _
      rw [List.nil_append, hend]
      simp
  | cons c s ih =>
      intro inWord h
      rw [extractAfter, Option.or_eq_none_iff, Option.map_eq_none_iff, labelled_eq] at h
      have hhere : labelled label value inWord (c :: s ++ rest) = none := by
        rw [labelled_eq, afterLabel?_append (hlabel.not_mem (by decide)) hrest, Option.bind_map]
        cases hafter : afterLabel? label inWord (c :: s) with
        | none => rfl
        | some t => exact hvalue t rest hrest (by simpa [hafter] using h.1)
      rw [List.cons_append, extractAfter, ← List.cons_append, hhere, Option.none_or, ih _ h.2,
        Option.map_map]
      rfl

theorem misses_of_unlabelled (hlabel : IsLabel label)
    (h : extract (labelled label fun cs => some ([], cs)) s = none) :
    (labelled label value).Misses s := by
  refine hlabel.misses_of_extract_eq_none ?_ h
  intro t rest _ hnone
  cases hnone

theorem extractAfter_eq_none (h : ':' ∉ s) (inWord : Bool) :
    extractAfter (labelled label value) inWord s = none := by
  induction s generalizing inWord with
  | nil => rfl
  | cons c s ih =>
      rw [extractAfter, labelled_eq, afterLabel?_eq_none h, Option.bind_none, Option.none_or,
        ih (List.not_mem_of_not_mem_cons h), Option.map_none]

theorem misses_of_not_mem (hlabel : IsLabel label) (h : ':' ∉ s) :
    (labelled label value).Misses s :=
  hlabel.misses_of_unlabelled (extractAfter_eq_none h false)

theorem afterLabel?_eq_none_of_ne (hlabel : IsLabel label) {l : List Char}
    (hl : ∀ c ∈ l, isWordChar c = true) (hne : label.toList ≠ l) (inWord : Bool)
    (cs : List Char) : afterLabel? label inWord (l ++ ':' :: cs) = none := by
  unfold afterLabel?
  split
  · rfl
  · refine Option.bind_eq_none_iff.mpr fun t ht => Option.map_eq_none_iff.mpr ?_
    rcases List.append_eq_append_iff.mp (after?_eq_some_iff.mp ht) with
      ⟨further, heq, hcolon⟩ | ⟨further, heq, rfl⟩
    · -- The label is the longer word, and would go on with the colon.
      cases further with
      | nil => exact absurd (by simpa using heq) hne
      | cons d further =>
          cases hcolon
          exact absurd (by simp [heq]) (hlabel.not_mem (by decide : isWordChar ':' = false))
    · cases further with
      | nil => exact absurd (by simpa using heq.symm) hne
      | cons d further =>
          have hd := hl d (by simp [heq])
          have hcolon : ':' ≠ d := by
            rintro rfl
            exact absurd hd (by decide)
          rw [List.cons_append, dropWhile_of_head (by simp [isSpace_of_isWordChar hd]), after?,
            if_neg hcolon]

/-- The only colon stands behind another label. -/
theorem misses_labelledChars (hlabel : IsLabel label) (hlabel' : IsLabel label')
    (hne : ¬label.toList <:+ label'.toList) (hs : ':' ∉ s) :
    (labelled label value).Misses (labelledChars label' s) := by
  suffices h : ∀ l, l <:+ label'.toList → ∀ inWord,
      extractAfter (labelled label fun cs => some ([], cs)) inWord (l ++ ':' :: ' ' :: s) =
        none from
    hlabel.misses_of_unlabelled (h _ List.suffix_rfl false)
  intro l
  induction l with
  | nil =>
      intro _ inWord
      rw [List.nil_append, extractAfter, hlabel.labelled_eq_none (by decide), extractAfter,
        hlabel.labelled_eq_none (by decide), extractAfter_eq_none hs]
      rfl
  | cons c l ih =>
      intro hl inWord
      have hword : ∀ d ∈ c :: l, isWordChar d = true := fun d hd => hlabel'.word d (hl.subset hd)
      have hother : label.toList ≠ c :: l := by
        rintro heq
        exact hne (heq ▸ hl)
      rw [List.cons_append, extractAfter, ← List.cons_append, labelled_eq,
        hlabel.afterLabel?_eq_none_of_ne hword hother, Option.bind_none, Option.none_or,
        ih ((List.suffix_cons c l).trans hl), Option.map_none]

/-- An argument is taken out of a row where it is given, and not found where it is not. -/
theorem extractOptional_part {α : Type} (hlabel : IsLabel label) {o : Option α}
    {text inner : α → List Char} {before after : List (List Char)}
    (hfinds : ∀ a ∈ o, (labelled label value).Finds (labelledChars label (text a)) (inner a))
    (hbefore : ∀ t ∈ before, (labelled label value).Misses t)
    (hafter : ∀ t ∈ after, (labelled label value).Misses t) :
    extractOptional (labelled label value) (row (before ++ part label (o.map text) ++ after)) =
      (o.map inner, row (before ++ taken o ++ after)) := by
  cases o with
  | none =>
      have hrow : extract (labelled label value) (row (before ++ after)) = none := by
        refine hlabel.isSolid_labelled.extract_row_eq_none fun t ht => ?_
        rcases List.mem_append.mp ht with ht | ht
        · exact hbefore t ht
        · exact hafter t ht
      simp only [extractOptional, part, taken, Option.map_none, Option.toList_none, List.append_nil,
        hrow]
  | some a =>
      have hrow := (hfinds a rfl).extract_row hlabel.isSolid_labelled hbefore after
      simp only [extractOptional, part, taken, Option.map_some, Option.toList_some,
        List.append_assoc, List.singleton_append, hrow]

end IsLabel

end Labelled

end SchemaMigration.ArgumentText
