import Mathlib.Data.List.Forall2
import SchemaMigration.Proofs.Schema.ArgumentText.Trimming

/-! # Tokens with white space around them

Between the tokens of a text any white space may stand. Such a text keeps its tokens when it is
stripped, and when its tokens are groups with commas between them, it is made of the texts of the
groups with commas between them.
-/

namespace SchemaMigration.ArgumentText

open Text (after? isBlank isSpace strip stripBy_surround)

/-- A text that is made of tokens, with white space before, between and behind them. -/
inductive IsSpaced : List (List Char) → List Char → Prop
  | nil {gap : List Char} (hgap : ∀ c ∈ gap, isSpace c = true) : IsSpaced [] gap
  | cons {gap token rest : List Char} {tokens : List (List Char)}
      (hgap : ∀ c ∈ gap, isSpace c = true) (hrest : IsSpaced tokens rest) :
      IsSpaced (token :: tokens) (gap ++ (token ++ rest))

theorem isBlank_of_isSpace {c : Char} (h : isSpace c = true) : isBlank c = true := by
  simp only [isSpace, Bool.or_eq_true] at h
  simp only [isBlank, Bool.or_eq_true]
  tauto

namespace IsSpaced

variable {tokens more : List (List Char)} {token text gap : List Char} {c : Char}

theorem nil_iff : IsSpaced [] text ↔ ∀ c ∈ text, isSpace c = true :=
  ⟨fun | .nil hgap => hgap, .nil⟩

theorem cons_iff : IsSpaced (token :: tokens) text ↔
    ∃ gap rest, (∀ c ∈ gap, isSpace c = true) ∧ IsSpaced tokens rest ∧
      text = gap ++ (token ++ rest) := by
  constructor
  · rintro (_ | ⟨hgap, hrest⟩)
    exact ⟨_, _, hgap, hrest, rfl⟩
  · rintro ⟨gap, rest, hgap, hrest, rfl⟩
    exact .cons hgap hrest

theorem singleton_iff : IsSpaced [token] text ↔
    ∃ lead trail, (∀ c ∈ lead, isSpace c = true) ∧ (∀ c ∈ trail, isSpace c = true) ∧
      text = lead ++ (token ++ trail) := by
  simp only [cons_iff, nil_iff]

theorem mem (h : IsSpaced tokens text) (hc : c ∈ text) :
    isSpace c = true ∨ ∃ t ∈ tokens, c ∈ t := by
  induction h with
  | nil hgap => exact .inl (hgap c hc)
  | @cons gap token rest tokens hgap _ ih =>
      rcases List.mem_append.mp hc with hc | hc
      · exact .inl (hgap c hc)
      · rcases List.mem_append.mp hc with hc | hc
        · exact .inr ⟨token, List.mem_cons_self, hc⟩
        · rcases ih hc with hspace | ⟨t, ht, hc⟩
          · exact .inl hspace
          · exact .inr ⟨t, List.mem_cons_of_mem _ ht, hc⟩

theorem not_mem (h : IsSpaced tokens text) (hspace : isSpace c = false)
    (htokens : ∀ t ∈ tokens, c ∉ t) : c ∉ text := by
  intro hc
  rcases h.mem hc with hc | ⟨t, ht, hc⟩
  · rw [hspace] at hc
    cases hc
  · exact htokens t ht hc

theorem lead (h : IsSpaced tokens text) (hgap : ∀ c ∈ gap, isSpace c = true) :
    IsSpaced tokens (gap ++ text) := by
  cases h with
  | nil htext => exact .nil (List.forall_mem_append.mpr ⟨hgap, htext⟩)
  | cons htext hrest =>
      rw [← List.append_assoc]
      exact .cons (List.forall_mem_append.mpr ⟨hgap, htext⟩) hrest

theorem trail (h : IsSpaced tokens text) (hgap : ∀ c ∈ gap, isSpace c = true) :
    IsSpaced tokens (text ++ gap) := by
  induction h with
  | nil htext => exact .nil (List.forall_mem_append.mpr ⟨htext, hgap⟩)
  | cons htext _ ih =>
      rw [List.append_assoc, List.append_assoc]
      exact .cons htext ih

/-- The tokens may be taken apart at any place. -/
theorem of_append (h : IsSpaced (tokens ++ more) text) :
    ∃ front back, text = front ++ back ∧ IsSpaced tokens front ∧ IsSpaced more back := by
  induction tokens generalizing text with
  | nil => exact ⟨[], text, rfl, .nil (List.forall_mem_nil _), h⟩
  | cons token tokens ih =>
      obtain ⟨gap, rest, hgap, hrest, rfl⟩ := cons_iff.mp h
      obtain ⟨front, back, rfl, hfront, hback⟩ := ih hrest
      exact ⟨gap ++ (token ++ front), back, by simp, .cons hgap hfront, hback⟩

/-- What is left of a text without the white space around it has the same tokens. -/
theorem exists_core (h : IsSpaced tokens text) (hne : tokens ≠ [])
    (htokens : ∀ t ∈ tokens, Trimmed t) :
    ∃ lead core trail, text = lead ++ (core ++ trail) ∧ (∀ c ∈ lead, isSpace c = true) ∧
      (∀ c ∈ trail, isSpace c = true) ∧ Trimmed core ∧ IsSpaced tokens core := by
  induction h with
  | nil => exact absurd rfl hne
  | @cons gap token rest tokens hgap hrest ih =>
      have htoken := htokens token List.mem_cons_self
      have hnil : ∀ c ∈ ([] : List Char), isSpace c = true := List.forall_mem_nil _
      cases tokens with
      | nil =>
          refine ⟨gap, token, rest, rfl, hgap, nil_iff.mp hrest, htoken, ?_⟩
          exact singleton_iff.mpr ⟨[], [], hnil, hnil, by simp⟩
      | cons next tokens =>
          obtain ⟨lead, core, trail, rfl, hlead, htrail, hcore, hspaced⟩ :=
            ih (List.cons_ne_nil _ _) fun t ht => htokens t (List.mem_cons_of_mem _ ht)
          refine ⟨gap, token ++ (lead ++ core), trail, by simp, hgap, htrail,
            htoken.append hcore lead, ?_⟩
          exact cons_iff.mpr ⟨[], lead ++ core, hnil, hspaced.lead hlead, rfl⟩

theorem strip (h : IsSpaced tokens text) (hne : tokens ≠ []) (htokens : ∀ t ∈ tokens, Trimmed t) :
    IsSpaced tokens (Text.strip text) ∧ Text.strip text ≠ [] := by
  obtain ⟨lead, core, trail, rfl, hlead, htrail, hcore, hspaced⟩ := h.exists_core hne htokens
  have hstrip : Text.strip (lead ++ (core ++ trail)) = core :=
    (stripBy_surround (fun c hc => isBlank_of_isSpace (hlead c hc))
      fun c hc => isBlank_of_isSpace (htrail c hc)).trans hcore.strip_eq
  rw [hstrip]
  exact ⟨hspaced, hcore.ne_nil⟩

/-- Whether tokens are read one after the other from a text, white space before each passed over. -/
def check : List (List Char) → List Char → Bool
  | [], text => text.all isSpace
  | token :: tokens, text =>
    match after? token (text.dropWhile isSpace) with
    | some rest => check tokens rest
    | none => false

theorem of_check (h : check tokens text = true) : IsSpaced tokens text := by
  induction tokens generalizing text with
  | nil => exact .nil (List.all_eq_true.mp h)
  | cons token tokens ih =>
      rw [check] at h
      split at h
      next rest hrest =>
        have htext : text = text.takeWhile isSpace ++ (token ++ rest) := by
          rw [← Grammar.after?_eq_some_iff.mp hrest, List.takeWhile_append_dropWhile]
        exact cons_iff.mpr ⟨_, rest, fun c hc => List.mem_takeWhile_imp hc, ih h, htext⟩
      next => cases h

end IsSpaced

/-! ## Groups of tokens -/

theorem mem_or_mem_of_mem_intercalate {α : Type} {separator : List α} {lists : List (List α)}
    {a : α} (h : a ∈ separator.intercalate lists) : a ∈ separator ∨ ∃ l ∈ lists, a ∈ l := by
  induction lists with
  | nil => cases h
  | cons l lists ih =>
      by_cases hnil : lists = []
      · rw [hnil, List.intercalate_singleton] at h
        exact .inr ⟨l, List.mem_cons_self, h⟩
      · rw [List.intercalate_cons_of_ne_nil hnil, List.mem_append, List.mem_append] at h
        rcases h with (h | h) | h
        · exact .inr ⟨l, List.mem_cons_self, h⟩
        · exact .inl h
        · obtain h | ⟨l', hl', h⟩ := ih h
          · exact .inl h
          · exact .inr ⟨l', List.mem_cons_of_mem _ hl', h⟩

section Groups

variable {groups : List (List (List Char))} {text : List Char}

/-- Groups of tokens with commas between them are in texts with commas between them. -/
theorem IsSpaced.exists_items (h : IsSpaced ([[',']].intercalate groups) text)
    (hne : groups ≠ []) :
    ∃ items, text = [','].intercalate items ∧ List.Forall₂ IsSpaced groups items := by
  induction groups generalizing text with
  | nil => exact absurd rfl hne
  | cons group groups ih =>
      by_cases hgroups : groups = []
      · subst hgroups
        rw [List.intercalate_singleton] at h
        exact ⟨[text], List.intercalate_singleton.symm, .cons h .nil⟩
      · rw [List.intercalate_cons_of_ne_nil hgroups, List.append_assoc] at h
        obtain ⟨front, back, rfl, hfront, hback⟩ := h.of_append
        obtain ⟨gap, rest, hgap, hrest, rfl⟩ := cons_iff.mp hback
        obtain ⟨items, rfl, hitems⟩ := ih hrest hgroups
        have hne : items ≠ [] := by
          rintro rfl
          exact hgroups ((List.forall₂_nil_right_iff).mp hitems)
        refine ⟨(front ++ gap) :: items, ?_, .cons (hfront.trail hgap) hitems⟩
        rw [List.intercalate_cons_of_ne_nil hne]
        simp

end Groups

end SchemaMigration.ArgumentText
