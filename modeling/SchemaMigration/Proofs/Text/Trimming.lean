import Mathlib.Data.List.DropRight
import SchemaMigration.Text.Blank

/-! # Stripped texts and joined texts

A text is left as it is when it is stripped of characters that are at neither of its ends, and so
stripping it once more changes nothing. Texts are joined by a separator that stands between them.
-/

namespace SchemaMigration.Text

variable {p : Char → Bool} {cs : List Char}

theorem dropTrailing_eq_rdropWhile (p : Char → Bool) (cs : List Char) :
    dropTrailing p cs = cs.rdropWhile p :=
  rfl

theorem stripBy_eq_self (hhead : ∀ c ∈ cs.head?, p c = false)
    (hlast : ∀ c ∈ cs.getLast?, p c = false) : stripBy p cs = cs := by
  have hdrop : cs.dropWhile p = cs := List.dropWhile_eq_self_iff.mpr fun hpos => by
    simp [hhead _ (List.head?_eq_getElem? ▸ List.getElem?_eq_getElem hpos)]
  have hdropRight : cs.rdropWhile p = cs := List.rdropWhile_eq_self_iff.mpr fun hne => by
    simp [hlast _ (List.getLast?_eq_some_getLast hne)]
  rw [stripBy, hdrop]
  exact hdropRight

theorem eq_of_stripBy (h : stripBy p cs = cs) : cs.dropWhile p = cs ∧ cs.rdropWhile p = cs := by
  have hprefix : stripBy p cs <+: cs.dropWhile p := List.rdropWhile_prefix p _
  have hsuffix : cs.dropWhile p <:+ cs := List.dropWhile_suffix p
  have hdrop : cs.dropWhile p = cs :=
    hsuffix.eq_of_length_le (by simpa [h] using hprefix.length_le)
  rw [stripBy, hdrop] at h
  exact ⟨hdrop, h⟩

theorem head_of_stripBy (h : stripBy p cs = cs) : ∀ c ∈ cs.head?, p c = false := by
  intro c hc
  cases cs with
  | nil => cases hc
  | cons d cs =>
      cases hc
      exact Bool.eq_false_iff.mpr (List.dropWhile_eq_self_iff.mp (eq_of_stripBy h).1 (by simp))

theorem last_of_stripBy (h : stripBy p cs = cs) : ∀ c ∈ cs.getLast?, p c = false := by
  intro c hc
  obtain ⟨hne, rfl⟩ := List.mem_getLast?_eq_getLast hc
  simpa using List.rdropWhile_eq_self_iff.mp (eq_of_stripBy h).2 hne

theorem stripBy_stripBy (p : Char → Bool) (cs : List Char) :
    stripBy p (stripBy p cs) = stripBy p cs := by
  refine stripBy_eq_self (fun c hc => ?_) fun c hc => ?_
  · -- What is stripped begins as the text does behind what is dropped in front.
    have hprefix : stripBy p cs <+: cs.dropWhile p := List.rdropWhile_prefix p _
    obtain ⟨rest, hrest⟩ := hprefix
    have hhead : (cs.dropWhile p).head? = some c := by
      rw [← hrest, List.head?_append, Option.mem_def.mp hc, Option.some_or]
    simpa [hhead] using List.head?_dropWhile_not p cs
  · obtain ⟨hne, rfl⟩ := List.mem_getLast?_eq_getLast hc
    exact Bool.eq_false_iff.mpr (List.rdropWhile_last_not p _ hne)

/-- What is stripped may stand behind a text without changing it. -/
theorem stripBy_append {gap : List Char} (h : stripBy p cs = cs) (hne : cs ≠ [])
    (hgap : ∀ c ∈ gap, p c = true) : stripBy p (cs ++ gap) = cs := by
  have hdrop : (cs ++ gap).dropWhile p = cs ++ gap := List.dropWhile_eq_self_iff.mpr fun hpos => by
    obtain ⟨c, rest, rfl⟩ := List.exists_cons_of_ne_nil hne
    simpa using head_of_stripBy h c rfl
  rw [stripBy, hdrop, dropTrailing, List.reverse_append,
    List.dropWhile_append_of_pos fun c hc => hgap c (List.mem_reverse.mp hc)]
  exact (eq_of_stripBy h).2

/-- Stripping takes off nothing but what it may at both ends. -/
theorem exists_eq_stripBy (p : Char → Bool) (cs : List Char) :
    ∃ lead trail, cs = lead ++ (stripBy p cs ++ trail) ∧ (∀ c ∈ lead, p c = true) ∧
      ∀ c ∈ trail, p c = true := by
  refine ⟨cs.takeWhile p, (cs.dropWhile p).rtakeWhile p, ?_, fun c hc => List.mem_takeWhile_imp hc,
    fun c hc => List.mem_rtakeWhile_imp hc⟩
  rw [stripBy, dropTrailing_eq_rdropWhile, List.rdropWhile_append_rtakeWhile,
    List.takeWhile_append_dropWhile]

/-- What may be stripped can stand around a text. -/
theorem stripBy_surround {lead trail : List Char} (hlead : ∀ c ∈ lead, p c = true)
    (htrail : ∀ c ∈ trail, p c = true) : stripBy p (lead ++ (cs ++ trail)) = stripBy p cs := by
  rw [stripBy, List.dropWhile_append_of_pos hlead, List.dropWhile_append]
  split
  next hnil =>
    have htrailing : trail.dropWhile p = [] := List.dropWhile_eq_nil_iff.mpr htrail
    rw [htrailing, stripBy, List.isEmpty_iff.mp hnil]
  next =>
    rw [dropTrailing, List.reverse_append,
      List.dropWhile_append_of_pos fun c hc => htrail c (List.mem_reverse.mp hc)]
    rfl

/-! ## Joined texts -/

/-- Behind the first text, each text has the separator in front of it. -/
theorem intercalate_eq_flatMap (separator : String) (s : String) (texts : List String) :
    (separator.intercalate (s :: texts)).toList =
      s.toList ++ texts.flatMap fun t => separator.toList ++ t.toList := by
  induction texts generalizing s with
  | nil => simp
  | cons t texts ih =>
      rw [String.intercalate_cons_cons, String.toList_append, ih, String.toList_append,
        List.flatMap_cons, List.append_assoc, List.append_assoc]

end SchemaMigration.Text
