import SchemaMigration.Toml.Document

/-! # Lines within a document

What stands in front of a line has been read line by line when the line is reached, and adds the
same to the outline whatever comes after it.
-/

namespace SchemaMigration.Toml

variable {bound bound' : Nat} {key : String} {indent cs text rest : List Char}
variable {content : Line} {lines : List Line} {o : Outline}
variable {entries : List (List String × Value)} {sections : List Section}

/-- A text made of lines that are each read as they are, whatever follows. -/
inductive IsLines : List Char → List Line → Prop
  | nil : IsLines [] []
  | cons {cs text : List Char} {content : Line} {lines : List Line}
    (hline : ∀ rest, line (cs ++ rest) = some (content, rest)) (htail : IsLines text lines) :
    IsLines (cs ++ text) (content :: lines)

def Outline.withLines (lines : List Line) (o : Outline) : Outline :=
  lines.foldr (fun content o => o.withLine content) o

/-! ## The outline behind lines -/

theorem outline_succ_eq_some_iff (h : cs ≠ []) :
    outline (bound + 1) cs = some o ↔ ∃ content rest o',
      line cs = some (content, rest) ∧ outline bound rest = some o' ∧ o = o'.withLine content := by
  cases cs with
  | nil => exact absurd rfl h
  | cons c cs =>
      rw [outline.eq_3 _ _ (List.cons_ne_nil c cs)]
      constructor
      · intro ho
        obtain ⟨⟨content, rest⟩, hline, ho⟩ := Option.bind_eq_some_iff.mp ho
        obtain ⟨o', ho', ho⟩ := Option.bind_eq_some_iff.mp ho
        cases ho
        exact ⟨content, rest, o', hline, ho', rfl⟩
      · rintro ⟨content, rest, o', hline, ho', rfl⟩
        exact Option.bind_eq_some_iff.mpr
          ⟨(content, rest), hline, Option.bind_eq_some_iff.mpr ⟨o', ho', rfl⟩⟩

theorem outline_zero (h : cs ≠ []) : outline 0 cs = none := by
  cases cs with
  | nil => exact absurd rfl h
  | cons => rfl

theorem outline_mono (h : outline bound cs = some o) (hle : bound ≤ bound') :
    outline bound' cs = some o := by
  induction bound generalizing bound' cs o with
  | zero =>
      cases cs with
      | nil => simpa [outline] using h
      | cons => cases h
  | succ bound ih =>
      by_cases hcs : cs = []
      · subst hcs
        simpa [outline] using h
      · obtain ⟨bound', rfl⟩ : ∃ n, bound' = n + 1 := ⟨bound' - 1, by omega⟩
        obtain ⟨content, rest, o', hline, ho', rfl⟩ := (outline_succ_eq_some_iff hcs).mp h
        exact (outline_succ_eq_some_iff hcs).mpr
          ⟨content, rest, o', hline, ih ho' (by omega), rfl⟩

/-- A document that has an outline is over, or goes on with a line. -/
theorem isSome_line_of_outline (h : outline bound cs = some o) : cs = [] ∨ (line cs).isSome := by
  by_cases hcs : cs = []
  · exact .inl hcs
  · cases bound with
    | zero => cases (outline_zero hcs).symm.trans h
    | succ bound =>
        obtain ⟨content, rest, o', hline, -, -⟩ := (outline_succ_eq_some_iff hcs).mp h
        exact .inr (by rw [hline]; rfl)

theorem ne_nil_of_line (h : ∀ rest, line (cs ++ rest) = some (content, rest)) : cs ≠ [] := by
  rintro rfl
  have hnone : line ['='] = none := rfl
  cases (h ['=']).symm.trans hnone

theorem IsLines.outline_eq_some_iff (h : IsLines text lines) :
    outline bound (text ++ rest) = some o ↔
      ∃ m o', bound = m + lines.length ∧ outline m rest = some o' ∧ o = o'.withLines lines := by
  induction h generalizing bound o with
  | nil => simp [Outline.withLines]
  | @cons cs text content lines hline htail ih =>
      have hne : cs ++ (text ++ rest) ≠ [] := by simp [ne_nil_of_line hline]
      rw [List.append_assoc]
      cases bound with
      | zero => simp [outline_zero hne]
      | succ bound =>
          rw [outline_succ_eq_some_iff hne]
          constructor
          · rintro ⟨content', _, o', hread, ho', rfl⟩
            cases (hline _).symm.trans hread
            obtain ⟨m, o', rfl, hrest, rfl⟩ := ih.mp ho'
            exact ⟨m, o', rfl, hrest, rfl⟩
          · rintro ⟨m, o', hbound, ho', rfl⟩
            exact ⟨content, _, _, hline _, ih.mpr ⟨m, o', Nat.succ.inj hbound, ho', rfl⟩, rfl⟩

/-! ## The last section of lines -/

theorem withLines_append (lines more : List Line) (o : Outline) :
    o.withLines (lines ++ more) = (o.withLines more).withLines lines :=
  List.foldr_append

theorem exists_withLines_entries
    (h : ∀ content ∈ lines, ∀ isArray path, content ≠ .header isArray path) :
    ∃ entries, ∀ o : Outline, o.withLines lines = (entries ++ o.1, o.2) := by
  induction lines with
  | nil => exact ⟨[], fun o => rfl⟩
  | cons content lines ih =>
      simp only [List.forall_mem_cons] at h
      obtain ⟨entries, hentries⟩ := ih h.2
      cases content with
      | blank => exact ⟨entries, fun o => by rw [← hentries]; rfl⟩
      | entry path value =>
          refine ⟨(path, value) :: entries, fun o => ?_⟩
          have hcons : o.withLines (.entry path value :: lines) =
              (o.withLines lines).withLine (.entry path value) := rfl
          rw [hcons, hentries]
          rfl
      | header isArray path => exact absurd rfl (h.1 isArray path)

theorem exists_withLines_sections (lines : List Line) :
    ∃ entries front, ∀ sections,
      Outline.withLines lines ([], sections) = (entries, front ++ sections) := by
  induction lines with
  | nil => exact ⟨[], [], fun sections => rfl⟩
  | cons content lines ih =>
      obtain ⟨entries, front, hfront⟩ := ih
      have hcons (sections : List Section) : Outline.withLines (content :: lines) ([], sections) =
          Outline.withLine (entries, front ++ sections) content := by
        rw [← hfront]
        rfl
      cases content with
      | blank => exact ⟨entries, front, hcons⟩
      | entry path value => exact ⟨(path, value) :: entries, front, hcons⟩
      | header isArray path => exact ⟨[], ⟨isArray, path, entries⟩ :: front, hcons⟩

/-- A text whose lines end in the section of a key, with blanks at the front of another line. -/
def LeadsInto (key : String) (text : List Char) : Prop :=
  ∃ body indent front entries, text = body ++ indent ∧
    IsLines body (front ++ .header false [key] :: entries) ∧
    (∀ content ∈ entries, ∀ isArray path, content ≠ .header isArray path) ∧
    ∀ c ∈ indent, isInlineBlank c

theorem LeadsInto.ne_nil (h : LeadsInto key text) : text ≠ [] := by
  obtain ⟨body, indent, front, entries, rfl, hbody, -, -⟩ := h
  intro hnil
  obtain ⟨rfl, -⟩ := List.append_eq_nil_iff.mp hnil
  generalize hlines : front ++ .header false [key] :: entries = lines at hbody
  generalize hnil : ([] : List Char) = body at hbody
  cases hbody with
  | nil => simp at hlines
  | cons hline _ => exact ne_nil_of_line hline (List.append_eq_nil_iff.mp hnil.symm).1

theorem line_indented (h : ∀ c ∈ indent, isInlineBlank c) : line (indent ++ cs) = line cs := by
  have hblanks : dropBlanks (indent ++ cs) = dropBlanks cs := List.dropWhile_append_of_pos h
  rw [line, line, endOfLine?, endOfLine?, hblanks]

/-- A line in the section of a key gives its entry to this section, whatever comes after it. -/
theorem LeadsInto.outline_eq_some_iff (h : LeadsInto key text) :
    ∃ n entries front before, ∀ bound rest o, rest ≠ [] →
      (outline bound (text ++ rest) = some o ↔ ∃ m content next o', bound = m + 1 + n ∧
        line rest = some (content, next) ∧ outline m next = some o' ∧
        o = (entries, front ++ ⟨false, [key], before ++ (o'.withLine content).1⟩ ::
          (o'.withLine content).2)) := by
  obtain ⟨body, indent, frontLines, entryLines, rfl, hbody, hentries, hindent⟩ := h
  obtain ⟨before, hbefore⟩ := exists_withLines_entries hentries
  obtain ⟨entries, front, hfront⟩ := exists_withLines_sections frontLines
  refine ⟨(frontLines ++ .header false [key] :: entryLines).length, entries, front, before, ?_⟩
  intro bound rest o hrest
  have hne : indent ++ rest ≠ [] := by simp [hrest]
  have hlines (o : Outline) : o.withLines (frontLines ++ .header false [key] :: entryLines) =
      (entries, front ++ ⟨false, [key], before ++ o.1⟩ :: o.2) := by
    rw [withLines_append, ← hfront]
    have hheader : o.withLines (.header false [key] :: entryLines) =
        (o.withLines entryLines).withLine (.header false [key]) := rfl
    rw [hheader, hbefore]
    rfl
  rw [List.append_assoc, hbody.outline_eq_some_iff]
  constructor
  · rintro ⟨m, o', rfl, ho', rfl⟩
    cases m with
    | zero => cases (outline_zero hne).symm.trans ho'
    | succ m =>
        obtain ⟨content, next, o'', hline, ho'', rfl⟩ := (outline_succ_eq_some_iff hne).mp ho'
        rw [line_indented hindent] at hline
        exact ⟨m, content, next, o'', rfl, hline, ho'', hlines _⟩
  · rintro ⟨m, content, next, o', rfl, hline, ho', rfl⟩
    rw [← line_indented hindent] at hline
    exact ⟨m + 1, _, rfl, (outline_succ_eq_some_iff hne).mpr
      ⟨content, next, o', hline, ho', rfl⟩, (hlines _).symm⟩

end SchemaMigration.Toml
