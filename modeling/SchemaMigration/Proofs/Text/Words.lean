import SchemaMigration.Text.Words

/-! # What snake case shows of a name

Snake case joins the words of a name, in lower case, by underscores. Cut at the underscores again it
shows these words, and nothing else of the name. So two names have one snake case exactly when they
show the same words. An underscore with a mark on it is part of a word, which counts as two when it
is shown.
-/

namespace SchemaMigration.Text

/-- The pieces of a text between its underscores. -/
def pieces (s : String) : List (List Char) :=
  s.toList.splitOn '_'

/-- The words of a name as snake case shows them. -/
def shownWords (name : String) : List (List Char) :=
  (words name.toList).flatMap fun w => (lower w).splitOn '_'

/-! ## Pieces -/

variable {s t name other : String}

theorem pieces_inj : pieces s = pieces t ↔ s = t := by
  refine ⟨fun h => String.toList_injective ?_, congrArg pieces⟩
  have hjoined := congrArg (List.intercalate ['_']) h
  simpa only [pieces, List.intercalate_splitOn] using hjoined

theorem pieces_append : pieces (s ++ "_" ++ t) = pieces s ++ pieces t := by
  have htext : (s ++ "_" ++ t).toList = s.toList ++ '_' :: t.toList := by simp
  rw [pieces, htext, List.splitOn_append_cons_self]
  rfl

theorem pieces_intercalate {texts : List String} (h : texts ≠ []) :
    pieces ("_".intercalate texts) = texts.flatMap pieces := by
  induction texts with
  | nil => exact absurd rfl h
  | cons s texts ih =>
      by_cases hrest : texts = []
      · simp [hrest]
      · rw [String.intercalate_cons_of_ne_nil hrest, pieces_append, ih hrest, List.flatMap_cons]

/-! ## Words in lower case -/

theorem lowerChar_ne_nil (c : Char) : lowerChar c ≠ [] := by
  unfold lowerChar
  dsimp only
  repeat' split
  all_goals exact List.cons_ne_nil _ _

theorem lower_ne_nil {w : List Char} (h : w ≠ []) : lower w ≠ [] := by
  obtain ⟨c, cs, rfl⟩ := List.exists_cons_of_ne_nil h
  unfold lower lowerFrom
  refine List.append_ne_nil_of_left_ne_nil ?_ _
  split
  · exact List.cons_ne_nil _ _
  · exact lowerChar_ne_nil c

theorem ne_nil_of_mem_words {cs w : List Char} (h : w ∈ words cs) : w ≠ [] := by
  simpa using (List.mem_filter.mp h).2

/-! ## Names -/

theorem shownWords_eq_nil_iff : shownWords name = [] ↔ words name.toList = [] := by
  rw [shownWords, List.flatMap_eq_nil_iff, List.eq_nil_iff_forall_not_mem]
  exact forall₂_congr fun w _ => iff_of_false (List.splitOn_ne_nil '_' (lower w)) not_false

/-- Cut at its underscores, the snake case of a name shows the words of the name. -/
theorem pieces_snakeCase (h : words name.toList ≠ []) :
    pieces (snakeCase name) = shownWords name := by
  have hwords : ((words name.toList).map fun w => String.ofList (lower w)) ≠ [] := by simpa
  rw [snakeCase, pieces_intercalate hwords, List.flatMap_map, shownWords]
  simp [pieces]

/-- Only a name without words has no snake case. -/
theorem snakeCase_eq_empty_iff : snakeCase name = "" ↔ words name.toList = [] := by
  cases hwords : words name.toList with
  | nil => simp [snakeCase, hwords]
  | cons w rest =>
      have hw : w ≠ [] := ne_nil_of_mem_words (hwords ▸ List.mem_cons_self)
      refine iff_of_false (fun hempty => ?_) (List.cons_ne_nil w rest)
      have htext := congrArg String.toList hempty
      rw [snakeCase, hwords, String.toList_intercalate] at htext
      cases rest <;> simp [lower_ne_nil hw] at htext

/-- Two names have one snake case exactly when they show the same words. -/
theorem snakeCase_eq_iff : snakeCase name = snakeCase other ↔ shownWords name = shownWords other := by
  by_cases hname : words name.toList = []
  · rw [snakeCase_eq_empty_iff.mpr hname, shownWords_eq_nil_iff.mpr hname, @eq_comm _ "",
      @eq_comm _ [], snakeCase_eq_empty_iff, shownWords_eq_nil_iff]
  · by_cases hother : words other.toList = []
    · rw [snakeCase_eq_empty_iff.mpr hother, shownWords_eq_nil_iff.mpr hother,
        snakeCase_eq_empty_iff, shownWords_eq_nil_iff]
    · rw [← pieces_inj, pieces_snakeCase hname, pieces_snakeCase hother]

end SchemaMigration.Text
