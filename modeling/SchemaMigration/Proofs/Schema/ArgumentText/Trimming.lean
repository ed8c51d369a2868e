import SchemaMigration.Proofs.Schema.ArgumentText.Balance
import SchemaMigration.Proofs.Schema.ArgumentText.Labelled
import SchemaMigration.Proofs.Text.Trimming

/-! # Trimmed texts and their rows

A text without blanks at its ends is left as it is when it is stripped. When such texts are balanced
and have no comma of their own, a row of them is cut at its commas into the same texts.
-/

namespace SchemaMigration.ArgumentText

open Grammar (row)
open Text (exists_eq_stripBy isBlank strip stripBy stripBy_eq_self)

/-! ## Stripping -/

section Stripping

variable {cs : List Char}

/-- A text with characters at its ends that are not blank. -/
structure Trimmed (cs : List Char) : Prop where
  head : ∃ c ∈ cs.head?, isBlank c = false
  last : ∃ c ∈ cs.getLast?, isBlank c = false

namespace Trimmed

variable {ds : List Char}

theorem ne_nil (h : Trimmed cs) : cs ≠ [] := by
  rintro rfl
  obtain ⟨c, hc, _⟩ := h.head
  cases hc

theorem strip_eq (h : Trimmed cs) : strip cs = cs := by
  obtain ⟨c, hc, hhead⟩ := h.head
  obtain ⟨d, hd, hlast⟩ := h.last
  refine stripBy_eq_self (fun e he => ?_) fun e he => ?_
  · cases Option.mem_unique he hc
    exact hhead
  · cases Option.mem_unique he hd
    exact hlast

theorem of_forall (hne : cs ≠ []) (h : ∀ c ∈ cs, isBlank c = false) : Trimmed cs where
  head := ⟨cs.head hne, List.head?_eq_some_head hne, h _ (List.head_mem hne)⟩
  last := ⟨cs.getLast hne, List.getLast?_eq_some_getLast hne, h _ (List.getLast_mem hne)⟩

theorem append (hcs : Trimmed cs) (hds : Trimmed ds) (middle : List Char) :
    Trimmed (cs ++ (middle ++ ds)) := by
  obtain ⟨c, hc, hhead⟩ := hcs.head
  obtain ⟨d, hd, hlast⟩ := hds.last
  refine ⟨⟨c, ?_, hhead⟩, ⟨d, ?_, hlast⟩⟩
  · simp [List.head?_append, Option.mem_def.mp hc]
  · simp [List.getLast?_append, Option.mem_def.mp hd]

theorem row {texts : List (List Char)} (hne : texts ≠ []) (h : ∀ t ∈ texts, Trimmed t) :
    Trimmed (row texts) := by
  induction texts with
  | nil => exact absurd rfl hne
  | cons t texts ih =>
      have ht := h t List.mem_cons_self
      cases texts with
      | nil => simpa [Grammar.row] using ht
      | cons t' texts =>
          rw [row_cons_of_ne_nil t (by simp)]
          exact ht.append (ih (by simp) fun t ht => h t (List.mem_cons_of_mem _ ht)) [',', ' ']

end Trimmed

theorem isBare_of_isBlank {c : Char} (h : isBlank c = true) : isBare c = true := by
  by_contra hbare
  simp only [isBare, decide_eq_true_eq, not_not, List.mem_cons, List.not_mem_nil, or_false] at hbare
  rcases hbare with rfl | rfl | rfl | rfl | rfl | rfl <;> exact absurd h (by decide)

/-- A balanced text is balanced without the blanks at its ends. -/
theorem Balanced.strip (h : Balanced true cs) : Balanced true (Text.strip cs) := by
  obtain ⟨lead, trail, hcs, hlead, htrail⟩ := exists_eq_stripBy isBlank cs
  have hfront : Balanced true lead := .of_bare fun c hc => isBare_of_isBlank (hlead c hc)
  rw [hcs] at h
  exact (h.of_append hfront).of_append_bare fun c hc => isBare_of_isBlank (htrail c hc)

end Stripping

/-! ## Pieces of a row -/

section Pieces

variable {texts : List (List Char)}

theorem intercalate_comma_of_ne_nil (text : List Char) (h : texts ≠ []) :
    [','].intercalate (text :: texts) = text ++ ',' :: [','].intercalate texts := by
  rw [List.intercalate_cons_of_ne_nil h, List.append_assoc, List.singleton_append]

theorem append_intercalate_comma (front text : List Char) (texts : List (List Char)) :
    front ++ [','].intercalate (text :: texts) = [','].intercalate ((front ++ text) :: texts) := by
  cases texts <;> simp [List.intercalate_cons_cons]

/-- Balanced texts with commas between them are cut at these commas. -/
theorem cut_intercalate (hne : texts ≠ []) (h : ∀ t ∈ texts, Balanced false t) :
    cut (.code 0) ([','].intercalate texts) = texts := by
  have hcomma : false = true → 0 < 0 := fun h => nomatch h
  induction texts with
  | nil => exact absurd rfl hne
  | cons text texts ih =>
      have htext := h text List.mem_cons_self
      by_cases hnil : texts = []
      · rw [hnil, List.intercalate_singleton, ← List.append_nil text, cut_append htext hcomma]
        simp [cut]
      · have hrest := ih hnil fun t ht => h t (List.mem_cons_of_mem _ ht)
        rw [intercalate_comma_of_ne_nil text hnil, cut_append htext hcomma, cut, if_pos ⟨rfl, rfl⟩,
          hrest]
        simp

/-- The pieces of balanced texts with commas between them are the texts, except for the blank
ones. -/
theorem pieces_intercalate (h : ∀ t ∈ texts, Balanced false t) :
    pieces ([','].intercalate texts) = (texts.map strip).filter fun t => !t.isEmpty := by
  by_cases hnil : texts = []
  · rw [hnil]
    rfl
  · rw [pieces, cut_intercalate hnil h]

/-- A balanced text is a row of texts without commas of their own, with commas between them. -/
theorem Balanced.exists_intercalate {commas : Bool} {cs : List Char} (h : Balanced commas cs) :
    ∃ text texts, (∀ t ∈ text :: texts, Balanced false t) ∧
      cs = [','].intercalate (text :: texts) := by
  induction h with
  | nil => exact ⟨[], [], by simpa using Balanced.nil, by simp⟩
  | @char commas c cs hc _ _ ih =>
      obtain ⟨text, texts, htexts, rfl⟩ := ih
      obtain ⟨htext, hrest⟩ := List.forall_mem_cons.mp htexts
      by_cases hcomma : c = ','
      · refine ⟨[], text :: texts, List.forall_mem_cons.mpr ⟨.nil, htexts⟩, ?_⟩
        rw [hcomma, List.intercalate_cons_cons]
        rfl
      · refine ⟨c :: text, texts, List.forall_mem_cons.mpr ⟨?_, hrest⟩, ?_⟩
        · exact .char hc (fun h => absurd h hcomma) htext
        · exact append_intercalate_comma [c] text texts
  | @quoted commas quote inside cs hquote hinside _ ih =>
      obtain ⟨text, texts, htexts, rfl⟩ := ih
      obtain ⟨htext, hrest⟩ := List.forall_mem_cons.mp htexts
      refine ⟨quote :: (inside ++ quote :: text), texts, List.forall_mem_cons.mpr ⟨?_, hrest⟩, ?_⟩
      · exact .quoted hquote hinside htext
      · simpa using append_intercalate_comma (quote :: (inside ++ [quote])) text texts
  | @group commas left right inside cs hclosing hinside _ _ ih =>
      obtain ⟨text, texts, htexts, rfl⟩ := ih
      obtain ⟨htext, hrest⟩ := List.forall_mem_cons.mp htexts
      refine ⟨left :: (inside ++ right :: text), texts, List.forall_mem_cons.mpr ⟨?_, hrest⟩, ?_⟩
      · exact .group hclosing hinside htext
      · simpa using append_intercalate_comma (left :: (inside ++ [right])) text texts

theorem row_eq_intercalate (text : List Char) (texts : List (List Char)) :
    row (text :: texts) = [','].intercalate (text :: texts.map (' ' :: ·)) := by
  induction texts generalizing text with
  | nil => simp [row]
  | cons t texts ih =>
      rw [row_cons_of_ne_nil text (List.cons_ne_nil t texts), ih, List.map_cons,
        List.intercalate_cons_cons]
      cases texts <;> simp [List.intercalate_cons_cons]

/-- Texts in a row are its pieces, except for those that are empty. -/
theorem pieces_row (h : ∀ t ∈ texts, Balanced false t ∧ strip t = t) :
    pieces (row texts) = texts.filter fun t => !t.isEmpty := by
  cases texts with
  | nil => rfl
  | cons text texts =>
      have hfurther : texts.map (strip ∘ (' ' :: ·)) = texts := by
        refine (List.map_congr_left fun t ht => ?_).trans (List.map_id texts)
        exact (h t (List.mem_cons_of_mem _ ht)).2
      have hbalanced : ∀ t ∈ text :: texts.map (' ' :: ·), Balanced false t := by
        refine List.forall_mem_cons.mpr ⟨(h text List.mem_cons_self).1, ?_⟩
        exact List.forall_mem_map.mpr fun t ht =>
          .char (by decide) (by decide) (h t (List.mem_cons_of_mem _ ht)).1
      rw [row_eq_intercalate, pieces_intercalate hbalanced, List.map_cons, List.map_map, hfurther,
        (h text List.mem_cons_self).2]

theorem pieces_row_of_nil (h : ∀ t ∈ texts, t = []) : pieces (row texts) = [] := by
  rw [pieces_row fun t ht => by rw [h t ht]; exact ⟨.nil, rfl⟩, List.filter_eq_nil_iff]
  intro t ht
  simp [h t ht]

end Pieces

end SchemaMigration.ArgumentText
