import SchemaMigration.Proofs.Schema.Grammar.Lexeme

/-! # What a scanner recognises

What a scanner cuts off at the front of a text is a lexeme of its kind, and what is left does not
continue it.
-/

namespace SchemaMigration.Grammar

open ArgumentText (isDigits)
open Text (isDigit isWord isWordChar run word)

variable {cs l rest : List Char}

/-! ## Runs and words -/

theorem head_dropWhile {p : Char → Bool} (cs : List Char) :
    (cs.dropWhile p).head?.any p = false := by
  have hhead := List.head?_dropWhile_not p cs
  cases hdrop : (cs.dropWhile p).head? with
  | none => rfl
  | some c => rwa [hdrop] at hhead

theorem run_eq_some {p : Char → Bool} (h : run p cs = some (l, rest)) :
    l ≠ [] ∧ (∀ c ∈ l, p c = true) ∧ cs = l ++ rest ∧ rest.head?.any p = false := by
  cases cs with
  | nil => cases h
  | cons c cs =>
      rw [run] at h
      split at h
      next hc =>
        cases h
        refine ⟨List.cons_ne_nil _ _, ?_, ?_, head_dropWhile cs⟩
        · exact List.forall_mem_cons.mpr ⟨hc, fun d hd => List.mem_takeWhile_imp hd⟩
        · rw [List.cons_append, List.takeWhile_append_dropWhile]
      next => cases h

theorem word_eq_some (h : word cs = some (l, rest)) :
    isWord l = true ∧ cs = l ++ rest ∧ rest.head?.any isWordChar = false := by
  cases cs with
  | nil => cases h
  | cons c cs =>
      rw [word] at h
      split at h
      next hc =>
        cases h
        refine ⟨isWord_iff.mpr ⟨c, _, rfl, hc, fun d hd => List.mem_takeWhile_imp hd⟩, ?_,
          head_dropWhile cs⟩
        rw [List.cons_append, List.takeWhile_append_dropWhile]
      next => cases h

/-! ## Fixed words -/

theorem wholeWord_eq_some {text : String} (h : Lexeme.wholeWord text cs = some (l, rest)) :
    l = text.toList ∧ cs = text.toList ++ rest ∧ rest.head?.any isWordChar = false := by
  obtain ⟨r, hafter, hend⟩ := Option.bind_eq_some_iff.mp h
  rw [Lexeme.endWord] at hend
  split at hend
  next => cases hend
  next hhead =>
    cases hend
    exact ⟨rfl, after?_eq_some_iff.mp hafter, by simpa using hhead⟩

theorem boolean_eq_some (h : Lexeme.boolean cs = some (l, rest)) :
    ∃ value : Bool, Lexeme.wholeWord (toString value) cs = some (l, rest) := by
  rcases Option.or_eq_some_iff.mp h with htrue | ⟨_, hfalse⟩
  · exact ⟨true, htrue⟩
  · exact ⟨false, hfalse⟩

/-! ## Numbers -/

theorem fraction_eq {cs : List Char} (hcs : cs.head?.any isDigit = false)
    (h : Lexeme.fraction cs = (l, rest)) :
    IsFraction l ∧ cs = l ++ rest ∧ rest.head?.any isDigit = false := by
  rw [Lexeme.fraction.eq_def] at h
  split at h
  next cs =>
    split at h
    next digits after hrun =>
      cases h
      obtain ⟨hne, hall, rfl, hrest⟩ := run_eq_some hrun
      exact ⟨.inr ⟨digits, isDigits_iff.mpr ⟨hne, hall⟩, rfl⟩, rfl, hrest⟩
    next =>
      cases h
      exact ⟨.inl rfl, rfl, hcs⟩
  next =>
    cases h
    exact ⟨.inl rfl, rfl, hcs⟩

theorem unsigned_eq_some (h : Lexeme.unsigned cs = some (l, rest)) :
    ∃ whole fraction, isDigits whole = true ∧ IsFraction fraction ∧ l = whole ++ fraction ∧
      cs = l ++ rest ∧ rest.head?.any isDigit = false := by
  obtain ⟨⟨whole, after⟩, hrun, heq⟩ := Option.map_eq_some_iff.mp h
  obtain ⟨hne, hall, rfl, hafter⟩ := run_eq_some hrun
  cases heq
  obtain ⟨hfraction, hsplit, hrest⟩ := fraction_eq hafter rfl
  exact ⟨whole, _, isDigits_iff.mpr ⟨hne, hall⟩, hfraction, rfl,
    by rw [List.append_assoc, ← hsplit], hrest⟩

theorem number_eq_some (h : Lexeme.number cs = some (l, rest)) :
    IsNumeral (String.ofList l) ∧ cs = l ++ rest ∧ rest.head?.any isDigit = false := by
  rw [Lexeme.number.eq_def] at h
  split at h
  next cs =>
    obtain ⟨⟨unsigned, after⟩, hunsigned, heq⟩ := Option.map_eq_some_iff.mp h
    cases heq
    obtain ⟨whole, fraction, hwhole, hfraction, rfl, rfl, hrest⟩ := unsigned_eq_some hunsigned
    exact ⟨⟨['-'], whole, fraction, .inr rfl, hwhole, hfraction, by simp⟩, rfl, hrest⟩
  next =>
    obtain ⟨whole, fraction, hwhole, hfraction, rfl, hsplit, hrest⟩ := unsigned_eq_some h
    exact ⟨⟨[], whole, fraction, .inl rfl, hwhole, hfraction, by simp⟩, hsplit, hrest⟩

/-! ## Strings -/

theorem stringInner_append (cs : List Char) :
    (Lexeme.stringInner cs).1 ++ (Lexeme.stringInner cs).2 = cs := by
  fun_induction Lexeme.stringInner cs with
  | case1 c cs inner rest heq ih => rw [heq] at ih; simp [← ih]
  | case2 => rfl
  | case3 c cs _ _ inner rest heq ih => rw [heq] at ih; simp [← ih]
  | case4 => rfl

/-! ## Names of attributes -/

theorem dotted_eq {bound : Nat} (hcs : cs.head?.any isWordChar = false)
    (h : Lexeme.dotted bound cs = (l, rest)) :
    ∃ further : List String, (∀ w ∈ further, IsIdentifier w) ∧
      l = further.flatMap (fun w => '.' :: w.toList) ∧ cs = l ++ rest ∧
      rest.head?.any isWordChar = false := by
  fun_induction Lexeme.dotted bound cs generalizing l with
  | case1 bound cs w after hword further rest' heq ih =>
      obtain ⟨hw, rfl, hafter⟩ := word_eq_some hword
      cases h
      obtain ⟨words, hwords, rfl, rfl, hrest⟩ := ih hafter heq
      refine ⟨String.ofList w :: words, ?_, ?_, by simp, hrest⟩
      · refine List.forall_mem_cons.mpr ⟨?_, hwords⟩
        rw [IsIdentifier, String.toList_ofList]
        exact hw
      · simp
  | case2 =>
      cases h
      exact ⟨[], List.forall_mem_nil _, rfl, rfl, hcs⟩
  | case3 =>
      cases h
      exact ⟨[], List.forall_mem_nil _, rfl, rfl, hcs⟩

theorem attributeName_eq_some (h : Lexeme.attributeName cs = some (l, rest)) :
    IsDottedName (String.ofList l) ∧ cs = l ++ rest ∧ rest.head?.any isWordChar = false := by
  obtain ⟨⟨w, after⟩, hword, heq⟩ := Option.map_eq_some_iff.mp h
  obtain ⟨hw, rfl, hafter⟩ := word_eq_some hword
  cases heq
  obtain ⟨further, hfurther, hdotted, hsplit, hrest⟩ := dotted_eq hafter rfl
  refine ⟨⟨String.ofList w, further, ?_, hfurther, by simp [hdotted]⟩, ?_, hrest⟩
  · rw [IsIdentifier, String.toList_ofList]
    exact hw
  · rw [List.append_assoc, ← hsplit]

end SchemaMigration.Grammar
