import SchemaMigration.Proofs.Schema.ArgumentText.Labelled

/-! # Occurrences of forms

A form of argument is extracted at the first place of a text where it is recognised, whatever the
text means around that place. A label is recognised with a colon behind it, blanks around the colon,
and a value; a string in quotes ends with the first quote that no backslash stands before.
-/

namespace SchemaMigration.ArgumentText

open Grammar (after?_eq_some_iff dropWhile_append_of_head)
open Text (Scanner after? isSpace isWordChar)

/-! ## The first occurrence -/

/-- Whether the place behind a text is within a word, given whether the place before the text is. -/
def endsInWord (inWord : Bool) (cs : List Char) : Bool :=
  (cs.getLast?.map isWordChar).getD inWord

theorem endsInWord_cons (inWord : Bool) (c : Char) (cs : List Char) :
    endsInWord inWord (c :: cs) = endsInWord (isWordChar c) cs := by
  rw [endsInWord, endsInWord, List.getLast?_cons]
  cases cs.getLast? <;> rfl

/-- An occurrence of a form in a text: what stands before it, its value, and what stands behind
it. -/
def Form.OccursIn (form : Form) (inWord : Bool) (cs before value after : List Char) : Prop :=
  ∃ s, s ≠ [] ∧ cs = before ++ s ∧ form (endsInWord inWord before) s = some (value, after)

section Occurrence

variable {form : Form} {inWord : Bool} {c : Char} {cs before value after left : List Char}

/-- A form occurs at the front of a text, or further on. -/
theorem Form.occursIn_cons_iff : form.OccursIn inWord (c :: cs) before value after ↔
    (before = [] ∧ form inWord (c :: cs) = some (value, after)) ∨
      ∃ further, before = c :: further ∧ form.OccursIn (isWordChar c) cs further value after := by
  constructor
  · rintro ⟨s, hs, heq, hform⟩
    cases before with
    | nil =>
        cases heq
        exact .inl ⟨rfl, hform⟩
    | cons d further =>
        obtain ⟨rfl, rfl⟩ := List.cons.inj heq
        exact .inr ⟨further, rfl, s, hs, rfl, endsInWord_cons inWord c further ▸ hform⟩
  · rintro (⟨rfl, hform⟩ | ⟨further, rfl, s, hs, rfl, hform⟩)
    · exact ⟨c :: cs, List.cons_ne_nil c cs, rfl, hform⟩
    · exact ⟨s, hs, rfl, (endsInWord_cons inWord c further).symm ▸ hform⟩

theorem Form.not_occursIn_nil : ¬form.OccursIn inWord [] before value after := by
  rintro ⟨s, hs, hnil, -⟩
  exact hs (List.append_eq_nil_iff.mp hnil.symm).2

/-- Nothing is extracted from a text without an occurrence. -/
theorem extractAfter_eq_none_iff : extractAfter form inWord cs = none ↔
    ∀ before value after, ¬form.OccursIn inWord cs before value after := by
  induction cs generalizing inWord with
  | nil => exact iff_of_true rfl fun _ _ _ => Form.not_occursIn_nil
  | cons c cs ih =>
      rw [extractAfter, Option.or_eq_none_iff, Option.map_eq_none_iff, ih]
      constructor
      · rintro ⟨hhere, hfurther⟩ before value after hoccurs
        rcases Form.occursIn_cons_iff.mp hoccurs with ⟨-, hform⟩ | ⟨further, -, hoccurs⟩
        · rw [hhere] at hform
          cases hform
        · exact hfurther _ _ _ hoccurs
      · intro h
        refine ⟨Option.eq_none_iff_forall_ne_some.mpr fun found hfound => ?_, ?_⟩
        · exact h [] found.1 found.2 (Form.occursIn_cons_iff.mpr (.inl ⟨rfl, hfound⟩))
        · intro before value after hoccurs
          exact h _ _ _ (Form.occursIn_cons_iff.mpr (.inr ⟨before, rfl, hoccurs⟩))

/-- What is extracted is the first occurrence. -/
theorem extractAfter_eq_some_iff : extractAfter form inWord cs = some (value, left) ↔
    ∃ before after, form.OccursIn inWord cs before value after ∧ left = before ++ after ∧
      ∀ b v a, form.OccursIn inWord cs b v a → before.length ≤ b.length := by
  induction cs generalizing inWord value left with
  | nil =>
      refine iff_of_false (by simp [extractAfter]) ?_
      rintro ⟨before, after, hoccurs, -⟩
      exact Form.not_occursIn_nil hoccurs
  | cons c cs ih =>
      rw [extractAfter]
      cases hhere : form inWord (c :: cs) with
      | some found =>
          obtain ⟨v, a⟩ := found
          have hfirst : form.OccursIn inWord (c :: cs) [] v a :=
            Form.occursIn_cons_iff.mpr (.inl ⟨rfl, hhere⟩)
          rw [Option.some_or, Option.some_inj, Prod.mk.injEq]
          constructor
          · rintro ⟨rfl, rfl⟩
            exact ⟨[], a, hfirst, rfl, fun _ _ _ _ => Nat.zero_le _⟩
          · rintro ⟨before, after, ⟨s, -, heq, hform⟩, rfl, hleast⟩
            obtain rfl : before = [] :=
              List.eq_nil_of_length_eq_zero (Nat.le_zero.mp (hleast _ _ _ hfirst))
            rw [← heq.trans (List.nil_append s)] at hform
            exact Prod.mk.injEq _ _ _ _ ▸ Option.some_inj.mp (hhere.symm.trans hform)
      | none =>
          have hfurther {b v a : List Char} (h : form.OccursIn inWord (c :: cs) b v a) :
              ∃ b', b = c :: b' ∧ form.OccursIn (isWordChar c) cs b' v a := by
            rcases Form.occursIn_cons_iff.mp h with ⟨-, hform⟩ | hfurther
            · rw [hhere] at hform
              cases hform
            · exact hfurther
          rw [Option.none_or, Option.map_eq_some_iff]
          constructor
          · rintro ⟨⟨v, l⟩, hfound, ⟨⟩⟩
            obtain ⟨before, after, hoccurs, rfl, hleast⟩ := ih.mp hfound
            refine ⟨c :: before, after, Form.occursIn_cons_iff.mpr (.inr ⟨before, rfl, hoccurs⟩),
              rfl, ?_⟩
            intro b v a h
            obtain ⟨b', rfl, hb'⟩ := hfurther h
            exact Nat.succ_le_succ (hleast b' v a hb')
          · rintro ⟨before, after, hoccurs, rfl, hleast⟩
            obtain ⟨before', rfl, hoccurs'⟩ := hfurther hoccurs
            refine ⟨(value, before' ++ after), ih.mpr ⟨before', after, hoccurs', rfl, ?_⟩, rfl⟩
            intro b v a h
            exact Nat.le_of_succ_le_succ
              (hleast _ v a (Form.occursIn_cons_iff.mpr (.inr ⟨b, rfl, h⟩)))

end Occurrence

/-! ## Labels -/

section Labels

variable {label : String} {value : Scanner} {inWord : Bool} {cs inner after : List Char}

/-- A label is recognised with a colon behind it, blanks around the colon, and a value. -/
theorem labelled_eq_some_iff : labelled label value inWord cs = some (inner, after) ↔
    inWord = false ∧ ∃ gap gap' rest, (∀ c ∈ gap, isSpace c = true) ∧
      (∀ c ∈ gap', isSpace c = true) ∧ rest.head?.any isSpace = false ∧
        cs = label.toList ++ (gap ++ ':' :: (gap' ++ rest)) ∧ value rest = some (inner, after) := by
  rw [labelled]
  cases inWord with
  | true => simp
  | false =>
      rw [if_neg Bool.false_ne_true, and_iff_right rfl]
      constructor
      · intro h
        obtain ⟨t, hlabel, h⟩ := Option.bind_eq_some_iff.mp h
        obtain ⟨u, hcolon, hvalue⟩ := Option.bind_eq_some_iff.mp h
        have hu : t.dropWhile isSpace = ':' :: u := after?_eq_some_iff.mp hcolon
        refine ⟨t.takeWhile isSpace, u.takeWhile isSpace, u.dropWhile isSpace,
          fun c hc => List.mem_takeWhile_imp hc, fun c hc => List.mem_takeWhile_imp hc, ?_, ?_,
          hvalue⟩
        · have hhead := List.head?_dropWhile_not isSpace u
          cases hdrop : u.dropWhile isSpace <;> simp_all
        · rw [after?_eq_some_iff.mp hlabel, List.takeWhile_append_dropWhile, ← hu,
            List.takeWhile_append_dropWhile]
      · rintro ⟨gap, gap', rest, hgap, hgap', hrest, rfl, hvalue⟩
        rw [after?_eq_some_iff.mpr rfl, Option.bind_some,
          dropWhile_append_of_head hgap (by rfl),
          after?_eq_some_iff.mpr (List.singleton_append).symm, Option.bind_some,
          dropWhile_append_of_head hgap' hrest, hvalue]

end Labels

/-! ## Strings in quotes -/

/-- The inside of a string in double quotes, as it is written: a quote has a backslash before it,
and a backslash stands before a character other than a line feed. -/
inductive IsInside : List Char → Prop
  | nil : IsInside []
  | char {c : Char} {cs : List Char} (hquote : c ≠ '"') (hbackslash : c ≠ '\\')
      (hcs : IsInside cs) : IsInside (c :: cs)
  | escaped {c : Char} {cs : List Char} (hc : c ≠ '\n') (hcs : IsInside cs) :
      IsInside ('\\' :: c :: cs)

theorem insideString_eq_some_iff {cs inner rest : List Char} :
    insideString cs = some (inner, rest) ↔ cs = inner ++ '"' :: rest ∧ IsInside inner := by
  constructor
  · intro h
    fun_induction insideString cs generalizing inner with
    | case1 cs =>
        cases h
        exact ⟨rfl, .nil⟩
    | case2 => cases h
    | case3 c cs hc ih =>
        obtain ⟨⟨further, rest'⟩, hfurther, ⟨⟩⟩ := Option.map_eq_some_iff.mp h
        obtain ⟨rfl, hinside⟩ := ih hfurther
        exact ⟨rfl, .escaped hc hinside⟩
    | case4 => cases h
    | case5 c cs hquote hescape hbackslash ih =>
        obtain ⟨⟨further, rest'⟩, hfurther, ⟨⟩⟩ := Option.map_eq_some_iff.mp h
        obtain ⟨rfl, hinside⟩ := ih hfurther
        exact ⟨rfl, .char hquote hbackslash hinside⟩
    | case6 => cases h
  · rintro ⟨rfl, hinside⟩
    induction hinside with
    | nil => rfl
    | char hquote hbackslash _ ih =>
        rw [List.cons_append, insideString, if_neg hbackslash, ih]
        · rfl
        · exact hquote
        · rintro d ds rfl
          exact absurd rfl hbackslash
    | escaped hc _ ih =>
        rw [List.cons_append, List.cons_append, insideString, if_neg hc, ih]
        rfl

theorem quotedString_eq_some_iff {cs inner rest : List Char} :
    quotedString cs = some (inner, rest) ↔
      cs = '"' :: (inner ++ '"' :: rest) ∧ IsInside inner := by
  constructor
  · intro h
    unfold quotedString at h
    split at h
    next cs =>
      obtain ⟨rfl, hinside⟩ := insideString_eq_some_iff.mp h
      exact ⟨rfl, hinside⟩
    next => cases h
  · rintro ⟨rfl, hinside⟩
    exact insideString_eq_some_iff.mpr ⟨rfl, hinside⟩

end SchemaMigration.ArgumentText
