import Mathlib.Data.List.Basic
import SchemaMigration.Toml.Document

/-! # Texts put between double quotes

A text that is put between double quotes, whatever it is made of, is read back as it is when it has
neither quotes nor backslashes in it. With one of them it never is: either the string ends before
the text does, or some of its characters are taken together for one, and nothing that comes later on
the line makes up for that.
-/

namespace SchemaMigration.Toml

variable {c e : Char} {cs rest text read piece owed after : List Char}

theorem withChar_eq_some_iff {c : Option Char} {scanned : Option (List Char × List Char)} :
    withChar c scanned = some (read, rest) ↔
      ∃ e more, c = some e ∧ scanned = some (more, rest) ∧ read = e :: more := by
  cases c <;> cases scanned <;> simp [withChar, Prod.ext_iff, eq_comm, and_comm]

/-! ## Texts without quotes and backslashes -/

/-- A character that stands for itself between double quotes. -/
def IsVerbatim (c : Char) : Prop :=
  c ≠ '"' ∧ c ≠ '\\'

theorem basicInside_cons (hplain : isPlain c) (h : IsVerbatim c) :
    basicInside (c :: cs) = withChar (some c) (basicInside cs) := by
  have hquote := h.1
  have hbackslash := h.2
  rw [basicInside.eq_def]
  split <;> simp_all

theorem basicInside_verbatim (hplain : ∀ c ∈ text, isPlain c) (h : ∀ c ∈ text, IsVerbatim c) :
    basicInside (text ++ '"' :: rest) = some (text, rest) := by
  induction text with
  | nil => rfl
  | cons c text ih =>
      simp only [List.forall_mem_cons] at hplain h
      rw [List.cons_append, basicInside_cons hplain.1 h.1, ih hplain.2 h.2]
      rfl

/-! ## Escapes -/

/-- A character that may come after the quotes that end a value: a blank, or what begins a comment
or a line end. -/
def IsGap (c : Char) : Prop :=
  c ∈ [' ', '\t', '#', '\n', '\r']

instance (c : Char) : Decidable (IsGap c) :=
  inferInstanceAs (Decidable (c ∈ [' ', '\t', '#', '\n', '\r']))

theorem isGap_iff : IsGap c ↔ c = ' ' ∨ c = '\t' ∨ c = '#' ∨ c = '\n' ∨ c = '\r' := by
  simp [IsGap]

/-- What stands for a character between double quotes: the character itself, an escaped quote, or
a backslash with other characters after it. -/
inductive StandsFor : List Char → Char → Prop
  | verbatim {c : Char} (h : IsVerbatim c) : StandsFor [c] c
  | quote : StandsFor ['\\', '"'] '"'
  | escape {cs : List Char} (e : Char) (hcs : cs ≠ []) (h : ∀ c ∈ cs, c ≠ '"' ∧ ¬IsGap c) :
    StandsFor ('\\' :: cs) e

theorem of_hexValue? (h : (hexValue? c).isSome) : c ≠ '"' ∧ ¬IsGap c := by
  constructor
  · rintro rfl
    cases h
  · intro hgap
    rcases isGap_iff.mp hgap with rfl | rfl | rfl | rfl | rfl <;> cases h

theorem hexValue?_of_hexNumber? {n m : Nat}
    (h : cs.foldlM (fun n c => (hexValue? c).map fun d => 16 * n + d) n = some m) :
    ∀ c ∈ cs, (hexValue? c).isSome := by
  induction cs generalizing n with
  | nil => simp
  | cons c cs ih =>
      simp only [List.foldlM_cons, Option.bind_eq_bind, Option.bind_eq_some_iff,
        Option.map_eq_some_iff] at h
      obtain ⟨_, ⟨d, hd, _⟩, h⟩ := h
      exact List.forall_mem_cons.mpr ⟨by simp [hd], ih h⟩

theorem of_hexChar? (h : hexChar? cs = some e) : ∀ c ∈ cs, c ≠ '"' ∧ ¬IsGap c := by
  obtain ⟨n, hn, -⟩ := Option.bind_eq_some_iff.mp h
  exact fun c hc => of_hexValue? (hexValue?_of_hexNumber? hn c hc)

theorem standsFor_of_escapedChar? (h : escapedChar? c = some e) : StandsFor ['\\', c] e := by
  by_cases hquote : c = '"'
  · subst hquote
    cases h
    exact .quote
  · refine .escape e (List.cons_ne_nil c []) ?_
    simp only [List.mem_singleton, forall_eq]
    refine ⟨hquote, fun hgap => ?_⟩
    rcases isGap_iff.mp hgap with rfl | rfl | rfl | rfl | rfl <;> cases h

theorem standsFor_of_hexChar? (h : hexChar? cs = some e) (hc : c ≠ '"' ∧ ¬IsGap c) :
    StandsFor ('\\' :: c :: cs) e :=
  .escape e (List.cons_ne_nil c cs) (List.forall_mem_cons.mpr ⟨hc, of_hexChar? h⟩)

/-- Between double quotes either the string ends, or something stands for its next character. -/
theorem basicInside_eq_some (h : basicInside cs = some (read, rest)) :
    (cs = '"' :: rest ∧ read = []) ∨ ∃ piece e more read', StandsFor piece e ∧ cs = piece ++ more ∧
      read = e :: read' ∧ basicInside more = some (read', rest) := by
  rw [basicInside.eq_def] at h
  split at h
  next =>
    cases h
    exact .inl ⟨rfl, rfl⟩
  next =>
    obtain ⟨e, read', he, hmore, rfl⟩ := withChar_eq_some_iff.mp h
    exact .inr ⟨_, e, _, read', standsFor_of_hexChar? he (by decide), rfl, rfl, hmore⟩
  next =>
    obtain ⟨e, read', he, hmore, rfl⟩ := withChar_eq_some_iff.mp h
    exact .inr ⟨_, e, _, read', standsFor_of_hexChar? he (by decide), rfl, rfl, hmore⟩
  next =>
    obtain ⟨e, read', he, hmore, rfl⟩ := withChar_eq_some_iff.mp h
    exact .inr ⟨_, e, _, read', standsFor_of_escapedChar? he, rfl, rfl, hmore⟩
  next c more hquote _ _ hbackslash =>
    split at h
    next =>
      obtain ⟨e, read', he, hmore, rfl⟩ := withChar_eq_some_iff.mp h
      cases he
      refine .inr ⟨[c], c, more, read', .verbatim ⟨hquote, ?_⟩, rfl, rfl, hmore⟩
      rintro rfl
      cases more with
      | nil => cases hmore
      | cons d more => exact hbackslash d more rfl rfl
    next => cases h
  next => cases h

/-! ## What is read is not what was put in -/

/-- What stands for a character either is part of the text, or ends with the quote after it. -/
theorem of_append_eq (h : piece ++ cs = text ++ '"' :: after) (hpiece : '"' ∉ piece.dropLast) :
    (∃ text', text = piece ++ text' ∧ cs = text' ++ '"' :: after) ∨
      piece = text ++ ['"'] ∧ cs = after := by
  rcases List.append_eq_append_iff.mp h with ⟨text', rfl, rfl⟩ | ⟨more, rfl, hmore⟩
  · exact .inl ⟨text', rfl, rfl⟩
  · cases more with
    | nil => exact .inl ⟨[], by simp, by simpa using hmore.symm⟩
    | cons c more =>
        obtain ⟨rfl, rfl⟩ := List.cons.inj hmore
        cases more with
        | nil => exact .inr ⟨rfl, rfl⟩
        | cons d more => simp [List.dropLast_append_of_ne_nil] at hpiece

theorem exists_of_append_eq (h : piece ++ cs = text ++ '"' :: after) (hpiece : '"' ∉ piece) :
    ∃ text', text = piece ++ text' ∧ cs = text' ++ '"' :: after := by
  rcases of_append_eq h fun hmem => hpiece (List.dropLast_subset piece hmem) with
    htext | ⟨rfl, -⟩
  · exact htext
  · simp at hpiece

/-- When a character is read, what is owed loses it at the front and gains what stood for it at the
end. -/
theorem exists_owed (hpiece : piece ≠ []) (h : owed ++ (piece ++ text) = e :: read) :
    ∃ owed', read = owed' ++ text ∧ owed' ⊆ owed ++ piece ∧
      owed'.length + 1 = owed.length + piece.length := by
  rw [← List.append_assoc] at h
  cases hfront : owed ++ piece with
  | nil => simp [hpiece] at hfront
  | cons d owed' =>
      rw [hfront, List.cons_append] at h
      have hlength : (owed ++ piece).length = owed'.length + 1 := by rw [hfront, List.length_cons]
      exact ⟨owed', (List.cons.inj h).2.symm, List.subset_cons_self d owed',
        by rw [← hlength, List.length_append]⟩

theorem length_lt_of_ne_nil (hpiece : piece ≠ []) : text.length < (piece ++ text).length := by
  have hpos := List.length_pos_iff.mpr hpiece
  rw [List.length_append]
  omega

/-- The characters that are owed come from before the text that is still to be read. There are no
quotes among them, and from the first backslash on there are always some. So the string does not end
within the text, and a quote that ends the text is not read as one of its characters. -/
theorem basicInside_ne (howed : '"' ∉ owed) (hlost : owed ≠ [] ∨ ∃ c ∈ text, ¬IsVerbatim c) :
    basicInside (text ++ '"' :: after) ≠ some (owed ++ text, rest) := by
  induction hlength : text.length using Nat.strongRecOn generalizing text owed with
  | ind n ih =>
  subst hlength
  intro h
  rcases basicInside_eq_some h with
    ⟨-, hread⟩ | ⟨piece, e, more, read', hpiece, hcs, hread, hmore⟩
  · obtain ⟨rfl, rfl⟩ := List.append_eq_nil_iff.mp hread
    simp at hlost
  · cases hpiece with
    | verbatim hc =>
        have hnone : '"' ∉ [e] := by simpa using hc.1.symm
        obtain ⟨text', rfl, rfl⟩ := exists_of_append_eq hcs.symm hnone
        obtain ⟨owed', rfl, hsubset, hcount⟩ := exists_owed (List.cons_ne_nil e []) hread
        refine ih text'.length (length_lt_of_ne_nil (List.cons_ne_nil e [])) ?_ ?_ rfl hmore
        · intro hmem
          exact (List.mem_append.mp (hsubset hmem)).elim howed hnone
        · rcases hlost with hlost | ⟨c, hmem, hspecial⟩
          · have hpos := List.length_pos_iff.mpr hlost
            exact .inl (List.length_pos_iff.mp (by rw [List.length_singleton] at hcount; omega))
          · rcases List.mem_append.mp hmem with hmem | hmem
            · exact absurd (List.mem_singleton.mp hmem ▸ hc) hspecial
            · exact .inr ⟨c, hmem, hspecial⟩
    | quote =>
        cases owed with
        | nil =>
            cases text with
            | nil => cases hread
            | cons c text =>
                obtain ⟨rfl, -⟩ := List.cons.inj hread
                cases (List.cons.inj hcs).1
        | cons d owed =>
            obtain ⟨rfl, -⟩ := List.cons.inj hread
            exact howed List.mem_cons_self
    | @escape tail _ htail hquote =>
        have hne : '\\' :: tail ≠ [] := List.cons_ne_nil _ tail
        have hnone : '"' ∉ '\\' :: tail := by
          simpa using fun hmem => (hquote _ hmem).1 rfl
        obtain ⟨text', rfl, rfl⟩ := exists_of_append_eq hcs.symm hnone
        obtain ⟨owed', rfl, hsubset, hcount⟩ := exists_owed hne hread
        refine ih text'.length (length_lt_of_ne_nil hne) ?_ (.inl ?_) rfl hmore
        · intro hmem
          exact (List.mem_append.mp (hsubset hmem)).elim howed hnone
        · have hpos := List.length_pos_iff.mpr htail
          rw [List.length_cons] at hcount
          exact List.length_pos_iff.mp (by omega)

/-! ## Strings that come to have several lines -/

/-- A text that is put between double quotes becomes one of several lines when it begins with two
quotes, or is a quote. In such a text quotes may stand for themselves. -/
theorem basicLines_eq_some (h : basicLines .text cs = some (read, rest)) :
    (read.length ≤ 2 ∧ ∃ more, cs = '"' :: '"' :: '"' :: more) ∨
    (∃ piece e more read', (StandsFor piece e ∨ piece = ['"'] ∧ e = '"') ∧ cs = piece ++ more ∧
      read = e :: read' ∧ basicLines .text more = some (read', rest)) ∨
    (∃ more, (cs = '\n' :: more ∨ cs = '\r' :: '\n' :: more) ∧ read.head? = some '\n') ∨
    ∃ c more, cs = '\\' :: c :: more ∧ IsGap c ∧
      (isPlain c → basicLines .lineEnd more = some (read, rest)) := by
  generalize hstate : LineState.text = state at h
  rw [basicLines.eq_def] at h
  split at h
  next =>
    subst hstate
    obtain ⟨e, more, he, -, rfl⟩ := withChar_eq_some_iff.mp h
    exact .inr (.inr (.inl ⟨_, .inl rfl, he.symm⟩))
  next =>
    subst hstate
    obtain ⟨e, more, he, -, rfl⟩ := withChar_eq_some_iff.mp h
    exact .inr (.inr (.inl ⟨_, .inr rfl, he.symm⟩))
  next => cases hstate
  next =>
    cases h
    exact .inl ⟨by simp, _, rfl⟩
  next =>
    cases h
    exact .inl ⟨by simp, _, rfl⟩
  next =>
    cases h
    exact .inl ⟨by simp, _, rfl⟩
  next =>
    subst hstate
    obtain ⟨e, read', he, hmore, rfl⟩ := withChar_eq_some_iff.mp h
    exact .inr (.inl
      ⟨_, e, _, read', .inl (standsFor_of_hexChar? he (by decide)), rfl, rfl, hmore⟩)
  next =>
    subst hstate
    obtain ⟨e, read', he, hmore, rfl⟩ := withChar_eq_some_iff.mp h
    exact .inr (.inl
      ⟨_, e, _, read', .inl (standsFor_of_hexChar? he (by decide)), rfl, rfl, hmore⟩)
  next => exact .inr (.inr (.inr ⟨_, _, rfl, by decide, fun hplain => by cases hplain⟩))
  next => exact .inr (.inr (.inr ⟨_, _, rfl, by decide, fun hplain => by cases hplain⟩))
  next c _ _ _ _ _ _ =>
    subst hstate
    split at h
    next hblank =>
      refine .inr (.inr (.inr ⟨_, _, rfl, ?_, fun _ => h⟩))
      rcases (Bool.or_eq_true_iff.mp hblank) with hc | hc <;> rw [beq_iff_eq.mp hc] <;> decide
    next =>
      obtain ⟨e, read', he, hmore, rfl⟩ := withChar_eq_some_iff.mp h
      exact .inr (.inl ⟨_, e, _, read', .inl (standsFor_of_escapedChar? he), rfl, rfl, hmore⟩)
  next c more _ _ _ _ _ _ _ _ _ hbackslash _ =>
    subst hstate
    simp only [reduceCtorEq, false_and, if_false] at h
    split at h
    next =>
      obtain ⟨e, read', he, hmore, rfl⟩ := withChar_eq_some_iff.mp h
      cases he
      refine .inr (.inl ⟨[c], c, more, read', ?_, rfl, rfl, hmore⟩)
      by_cases hquote : c = '"'
      · exact .inr ⟨by rw [hquote], hquote⟩
      · refine .inl (.verbatim ⟨hquote, ?_⟩)
        rintro rfl
        cases more with
        | nil => cases hmore
        | cons d more => exact hbackslash d more rfl rfl
    next => cases h
  next => cases h

theorem basicLines_lineEnd (hplain : ∀ c ∈ text, isPlain c) :
    basicLines .lineEnd (text ++ '"' :: after) = none := by
  induction text with
  | nil => rfl
  | cons c text ih =>
      simp only [List.forall_mem_cons] at hplain
      rw [List.cons_append, basicLines.eq_3]
      · rw [ih hplain.2, ite_self]
      · rintro rfl
        cases hplain.1
      · rintro _ rfl
        cases hplain.1

/-- What is read after the quotes of a value begins with what comes after them. -/
theorem exists_gap_of_basicLines (hafter : ∀ c ∈ after.head?, IsGap c)
    (h : basicLines .text after = some (read, rest)) : ∃ c ∈ read.head?, IsGap c := by
  rcases basicLines_eq_some h with ⟨-, more, rfl⟩ | ⟨piece, e, more, read', hpiece, rfl, rfl, -⟩ |
    ⟨more, -, hread⟩ | ⟨c, more, rfl, -, -⟩
  · exact absurd (hafter '"' rfl) (by decide)
  · rcases hpiece with hpiece | ⟨rfl, rfl⟩
    · cases hpiece with
      | verbatim => exact ⟨e, rfl, hafter e rfl⟩
      | quote => exact absurd (hafter '\\' rfl) (by decide)
      | escape => exact absurd (hafter '\\' rfl) (by decide)
    · exact absurd (hafter '"' rfl) (by decide)
  · exact ⟨'\n', hread, by decide⟩
  · exact absurd (hafter '\\' rfl) (by decide)

theorem StandsFor.of_not_isGap (h : StandsFor piece e) (he : ¬IsGap e) :
    piece ≠ [] ∧ '"' ∉ piece.dropLast ∧ ∀ c ∈ piece, ¬IsGap c := by
  cases h with
  | verbatim => simpa using he
  | quote => simp [IsGap]
  | escape _ hcs h =>
      rw [List.dropLast_cons_of_ne_nil hcs]
      refine ⟨by simp, ?_, List.forall_mem_cons.mpr ⟨by decide, fun c hc => (h c hc).2⟩⟩
      simpa using fun hmem => (h _ (List.dropLast_subset _ hmem)).1 rfl

/-- Of what is owed in a text of several lines no character is one that may come after the quotes of
a value, so what comes there is not what is owed, and within the text something is owed always. -/
theorem basicLines_ne (howed : ∀ c ∈ owed, ¬IsGap c) (hlost : owed ≠ [])
    (hplain : ∀ c ∈ text, isPlain c) (hafter : ∀ c ∈ after.head?, IsGap c) :
    basicLines .text (text ++ '"' :: after) ≠ some (owed ++ text, rest) := by
  induction hlength : text.length using Nat.strongRecOn generalizing text owed with
  | ind n ih =>
  subst hlength
  intro h
  rcases basicLines_eq_some h with ⟨hread, more, hcs⟩ |
    ⟨piece, e, more, read', hpiece, hcs, hread, hmore⟩ | ⟨more, hcs, -⟩ |
    ⟨c, more, hcs, hgap, hmore⟩
  · have hquote : after.head? ≠ some '"' := fun hhead => absurd (hafter _ hhead) (by decide)
    cases text with
    | nil => exact hquote (by rw [(List.cons.inj hcs).2]; rfl)
    | cons c text =>
        cases text with
        | nil => exact hquote (by rw [(List.cons.inj (List.cons.inj hcs).2).2]; rfl)
        | cons d text =>
            have hpos := List.length_pos_iff.mpr hlost
            simp only [List.length_append, List.length_cons] at hread
            omega
  · have he : ¬IsGap e := by
      cases owed with
      | nil => exact absurd rfl hlost
      | cons d owed =>
          obtain ⟨rfl, -⟩ := List.cons.inj hread
          exact howed d List.mem_cons_self
    obtain ⟨hne, hinit, hgaps⟩ :
        piece ≠ [] ∧ '"' ∉ piece.dropLast ∧ ∀ c ∈ piece, ¬IsGap c := by
      rcases hpiece with hpiece | ⟨rfl, rfl⟩
      · exact hpiece.of_not_isGap he
      · simp [IsGap]
    rcases of_append_eq hcs.symm hinit with ⟨text', rfl, rfl⟩ | ⟨rfl, rfl⟩
    · obtain ⟨owed', rfl, hsubset, hcount⟩ := exists_owed hne hread
      refine ih text'.length (length_lt_of_ne_nil hne) ?_ ?_ ?_ rfl hmore
      · intro c hc
        exact (List.mem_append.mp (hsubset hc)).elim (howed c) (hgaps c)
      · have hpos := List.length_pos_iff.mpr hlost
        have hpos' := List.length_pos_iff.mpr hne
        exact List.length_pos_iff.mp (by omega)
      · exact fun c hc => hplain c (List.mem_append_right piece hc)
    · obtain ⟨c, hc, hgap⟩ := exists_gap_of_basicLines hafter hmore
      have hmem : c ∈ owed ++ text := hread ▸ List.mem_cons_of_mem e (List.mem_of_mem_head? hc)
      exact (List.mem_append.mp hmem).elim (howed c · hgap)
        fun hmem => hgaps c (List.mem_append_left _ hmem) hgap
  · cases text with
    | nil => rcases hcs with hcs | hcs <;> cases (List.cons.inj hcs).1
    | cons c text =>
        have hc := hplain c List.mem_cons_self
        rcases hcs with hcs | hcs <;> rw [(List.cons.inj hcs).1] at hc <;> cases hc
  · cases text with
    | nil => cases (List.cons.inj hcs).1
    | cons b text =>
        obtain ⟨-, hcs⟩ := List.cons.inj hcs
        cases text with
        | nil => exact absurd ((List.cons.inj hcs).1 ▸ hgap) (by decide)
        | cons d text =>
            obtain ⟨rfl, rfl⟩ := List.cons.inj hcs
            simp only [List.forall_mem_cons] at hplain
            cases (basicLines_lineEnd hplain.2.2).symm.trans (hmore hplain.2.1)

/-! ## What comes after the quotes -/

variable {next : List Char}

theorem endOfLine?_eq_none (hgap : ¬IsGap c) : endOfLine? (c :: cs) = none := by
  simp only [isGap_iff, not_or] at hgap
  obtain ⟨hspace, htab, hcomment, hnewline, hreturn⟩ := hgap
  have hblanks : dropBlanks (c :: cs) = c :: cs := by simp [dropBlanks, isInlineBlank, hspace, htab]
  have hrest : afterComment (c :: cs) = c :: cs := by
    unfold afterComment
    split <;> simp_all
  simp only [endOfLine?, hblanks, hrest, List.isEmpty_cons, Bool.false_eq_true, if_false]
  unfold afterLineEnd?
  split <;> simp_all

theorem isGap_of_endOfLine? (h : endOfLine? after = some next) : ∀ c ∈ after.head?, IsGap c := by
  intro c hc
  by_contra hgap
  obtain ⟨cs, rfl⟩ := List.head?_eq_some_iff.mp hc
  rw [endOfLine?_eq_none hgap] at h
  cases h

theorem line_backslash : line ('\\' :: cs) = none :=
  rfl

theorem line_quotes : line ('"' :: '"' :: '"' :: cs) = none :=
  rfl

theorem line_escaped_gap (hgap : IsGap c) : line ('"' :: '\\' :: c :: cs) = none := by
  rcases isGap_iff.mp hgap with rfl | rfl | rfl | rfl | rfl <;> rfl

/-- No document goes on after a line in such a way that a text of several lines that begins there
is a quote. -/
theorem basicLines_ne_quote (hnext : next = [] ∨ (line next).isSome) :
    basicLines .text next ≠ some (['"'], rest) := by
  intro h
  have hline (hnone : line next = none) : next = [] := by simpa [hnone] using hnext
  rcases basicLines_eq_some h with ⟨-, more, rfl⟩ |
    ⟨piece, e, more, read', hpiece, rfl, hread, hmore⟩ | ⟨more, -, hread⟩ | ⟨c, more, rfl, -, -⟩
  · cases hline line_quotes
  · obtain ⟨rfl, rfl⟩ := List.cons.inj hread
    rcases hpiece with hpiece | ⟨rfl, -⟩
    · cases hpiece with
      | verbatim hc => exact hc.1 rfl
      | quote => cases hline line_backslash
      | escape => cases hline line_backslash
    · rcases basicLines_eq_some hmore with ⟨-, more', rfl⟩ | ⟨_, _, _, _, _, _, hread, _⟩ |
        ⟨_, _, hread⟩ | ⟨c, more', rfl, hgap, -⟩
      · cases hline line_quotes
      · cases hread
      · cases hread
      · cases hline (line_escaped_gap hgap)
  · cases hread
  · cases hline line_backslash

theorem string_eq_basicInside (h : ∀ more, cs ≠ '"' :: '"' :: more) :
    string ('"' :: cs) = basicInside cs := by
  unfold string
  split
  next heq => exact absurd (List.cons.inj heq).2 (h _)
  next heq => rw [(List.cons.inj heq).2]
  next heq => cases (List.cons.inj heq).1
  next heq => cases (List.cons.inj heq).1
  next hquote _ _ => exact absurd rfl (hquote cs)

/-- A text put between double quotes is what is read, when it has neither quotes nor backslashes. -/
theorem string_verbatim (hplain : ∀ c ∈ text, isPlain c) (h : ∀ c ∈ text, IsVerbatim c)
    (hend : endOfLine? rest = some next) :
    string ('"' :: (text ++ '"' :: rest)) = some (text, rest) := by
  rw [string_eq_basicInside, basicInside_verbatim hplain h]
  intro more heq
  cases text with
  | nil =>
      have hgap := isGap_of_endOfLine? hend '"' (by rw [(List.cons.inj heq).2]; rfl)
      exact absurd hgap (by decide)
  | cons c text => exact (h c List.mem_cons_self).1 (List.cons.inj heq).1

theorem withoutLineEnd_of_isPlain (hplain : ∀ c ∈ text, isPlain c) :
    withoutLineEnd (text ++ '"' :: after) = text ++ '"' :: after := by
  cases text with
  | nil => rfl
  | cons c text =>
      have hc := hplain c List.mem_cons_self
      unfold withoutLineEnd
      split
      next heq =>
        rw [(List.cons.inj heq).1] at hc
        cases hc
      next heq =>
        rw [(List.cons.inj heq).1] at hc
        cases hc
      next => rfl

/-- A quote is not what is read when it is put between double quotes: the three quotes begin a text
of several lines. -/
theorem string_ne_quote (hend : endOfLine? after = some next)
    (hnext : next = [] ∨ (line next).isSome) :
    string ('"' :: '"' :: '"' :: after) ≠ some (['"'], rest) := by
  have hstring : string ('"' :: '"' :: '"' :: after) = basicLines .text (withoutLineEnd after) :=
    rfl
  have hgap := isGap_of_endOfLine? hend
  rw [hstring]
  unfold withoutLineEnd
  split
  next =>
    cases hend
    exact basicLines_ne_quote hnext
  next =>
    cases hend
    exact basicLines_ne_quote hnext
  next =>
    intro h
    obtain ⟨c, hc, hc'⟩ := exists_gap_of_basicLines hgap h
    cases hc
    exact absurd hc' (by decide)

/-- A text put between double quotes is not what is read, when it has quotes or backslashes. -/
theorem verbatim_of_string (hplain : ∀ c ∈ text, isPlain c) (hend : endOfLine? after = some next)
    (hnext : next = [] ∨ (line next).isSome)
    (h : string ('"' :: (text ++ '"' :: after)) = some (text, rest)) :
    ∀ c ∈ text, IsVerbatim c := by
  by_contra hspecial
  push Not at hspecial
  by_cases hquotes : ∃ more, text ++ '"' :: after = '"' :: '"' :: more
  · obtain ⟨more, heq⟩ := hquotes
    cases text with
    | nil => simp at hspecial
    | cons c text =>
        obtain ⟨rfl, hrest⟩ := List.cons.inj heq
        cases text with
        | nil => exact string_ne_quote hend hnext h
        | cons d text =>
            obtain ⟨rfl, -⟩ := List.cons.inj hrest
            simp only [List.forall_mem_cons] at hplain
            have hgap := isGap_of_endOfLine? hend
            have hlines : string ('"' :: '"' :: '"' :: (text ++ '"' :: after)) =
                basicLines .text (withoutLineEnd (text ++ '"' :: after)) := rfl
            rw [withoutLineEnd_of_isPlain hplain.2.2] at hlines
            exact basicLines_ne (by simp [IsGap]) (List.cons_ne_nil '"' ['"']) hplain.2.2 hgap
              (hlines.symm.trans h)
  · rw [string_eq_basicInside fun more heq => hquotes ⟨more, heq⟩] at h
    have hnone : '"' ∉ ([] : List Char) := List.not_mem_nil
    exact basicInside_ne hnone (.inr hspecial) h

end SchemaMigration.Toml
