import SchemaMigration.Proofs.Schema.ArgumentText.Constituent
import SchemaMigration.Proofs.Schema.Grammar.Inversion
import SchemaMigration.Proofs.Schema.Grammar.Recognition
import SchemaMigration.Proofs.Schema.Grammar.Walk
import SchemaMigration.Proofs.Schema.Placement

/-! # Parsers pass what they read

A parser that succeeds leads to a cursor further on in the same text, whose offset counts the bytes
of what has been passed. What a gap passes is blanks and comments.
-/

namespace SchemaMigration.Grammar

open SchemaMigration.Grammar.Parser
open ArgumentText (rawArgument_eq_some)

/-! ## Gaps -/

/-- What is skipped from within a comment: the rest of the comment, and a gap behind it. -/
def IsCommentRest (last : Bool) (cs : List Char) : Prop :=
  (∃ body lineEnd gap, cs = body ++ lineEnd :: gap ∧ (∀ c ∈ body, isLineEnd c = false) ∧
    isLineEnd lineEnd = true ∧ IsGap last gap) ∨ last = true ∧ ∀ c ∈ cs, isLineEnd c = false

theorem IsCommentRest.isGap {last : Bool} {cs : List Char} (h : IsCommentRest last cs) :
    IsGap last ('/' :: '/' :: cs) := by
  rcases h with ⟨body, lineEnd, gap, rfl, hbody, hend, hgap⟩ | ⟨rfl, hbody⟩
  · exact .comment hbody hend hgap
  · exact .lastComment hbody

theorem IsCommentRest.cons {last : Bool} {c : Char} {cs : List Char} (hc : isLineEnd c = false)
    (h : IsCommentRest last cs) : IsCommentRest last (c :: cs) := by
  rcases h with ⟨body, lineEnd, gap, rfl, hbody, hend, hgap⟩ | ⟨rfl, hbody⟩
  · exact .inl ⟨c :: body, lineEnd, gap, rfl, List.forall_mem_cons.mpr ⟨hc, hbody⟩, hend, hgap⟩
  · exact .inr ⟨rfl, List.forall_mem_cons.mpr ⟨hc, hbody⟩⟩

/-- What is skipped is a gap, and a comment in it ends with its line unless the text ends there. -/
theorem passes_skip (inComment : Bool) (offset : Nat) (cs : List Char) {last : Bool}
    (hlast : (skip inComment offset cs).rest = [] → last = true) :
    ∃ gap, Cursor.Passes ⟨cs, offset⟩ gap (skip inComment offset cs) ∧
      if inComment then IsCommentRest last gap else IsGap last gap := by
  fun_induction skip inComment offset cs with
  | case1 offset c cs ih =>
      obtain ⟨gap, hpasses, hgap⟩ := ih hlast
      refine ⟨c :: gap, (Cursor.passes_char c cs offset).trans hpasses, ?_⟩
      cases hend : isLineEnd c with
      | true =>
          rw [hend] at hgap
          exact .inl ⟨[], c, gap, rfl, List.forall_mem_nil _, hend, hgap⟩
      | false =>
          rw [hend] at hgap
          exact IsCommentRest.cons hend hgap
  | case2 offset cs ih =>
      obtain ⟨gap, hpasses, hgap⟩ := ih hlast
      have hslashes : Cursor.Passes ⟨'/' :: '/' :: cs, offset⟩ ['/', '/'] ⟨cs, offset + 2⟩ :=
        ⟨rfl, rfl⟩
      exact ⟨'/' :: '/' :: gap, hslashes.trans hpasses, hgap.isGap⟩
  | case3 offset c cs hslash hblank ih =>
      obtain ⟨gap, hpasses, hgap⟩ := ih hlast
      exact ⟨c :: gap, (Cursor.passes_char c cs offset).trans hpasses, .blank hblank hgap⟩
  | case4 offset c cs hslash hblank => exact ⟨[], .refl _, .nil⟩
  | case5 inComment offset =>
      refine ⟨[], .refl _, ?_⟩
      cases inComment with
      | true => exact .inr ⟨hlast rfl, List.forall_mem_nil _⟩
      | false => exact .nil

theorem Cursor.passes_pastGap (c : Cursor) (last : Bool) (hlast : c.pastGap.rest = [] → last = true) :
    ∃ gap, c.Passes gap c.pastGap ∧ IsGap last gap :=
  passes_skip false c.offset c.rest hlast

theorem Cursor.reaches_pastGap (c : Cursor) : c.Reaches c.pastGap := by
  obtain ⟨gap, hgap, -⟩ := c.passes_pastGap true fun _ => rfl
  exact hgap.reaches

/-! ## Parsers advance -/

namespace Parser

variable {α β : Type} {p : Parser α} {f : α → Parser β}

/-- The parser leads on in the text whenever it succeeds. -/
def Advances (p : Parser α) : Prop :=
  ∀ c a d, p.Reads c a d → c.Reaches d

theorem advances_pure (a : α) : (pure a : Parser α).Advances := by
  intro c b d h
  obtain ⟨-, rfl⟩ := h.of_pure
  exact .refl _

theorem Advances.bind (hp : p.Advances) (hf : ∀ a, (f a).Advances) : (p >>= f).Advances := by
  intro c b d h
  obtain ⟨a, e, hreads, hrest⟩ := h.of_bind
  exact (hp c a e hreads).trans (hf a e b d hrest)

theorem Advances.symbol (hp : p.Advances) (s : Symbol) : (symbol s p).Advances :=
  fun c a d h => hp c a d h.of_symbol

theorem Advances.located (hp : p.Advances) : (located p).Advances :=
  fun c r d h => hp c r.1 d h.of_located.1

theorem advances_fail : (fail : Parser α).Advances :=
  fun _ _ _ h => absurd h not_reads_fail

theorem Advances.orElse {q : Parser α} (hp : p.Advances) (hq : q.Advances) :
    (orElse p q).Advances := by
  intro c a d h
  rcases h.of_orElse with hread | ⟨-, hread⟩
  · exact hp c a d hread
  · exact hq c a d hread

theorem Advances.optional (hp : p.Advances) : (optional p).Advances := by
  intro c o d h
  rcases h.of_optional with ⟨a, -, ha⟩ | ⟨-, rfl⟩
  · exact hp c a d ha
  · exact .refl _

/-- A scanner cuts its text in two. -/
def Cuts (scan : Text.Scanner) : Prop :=
  ∀ cs l rest, scan cs = some (l, rest) → cs = l ++ rest

/-- A lexeme notes what it passes, and the range of it. -/
theorem Reads.passes_lexeme {scan : Text.Scanner} {c d : Cursor} {i : Ident}
    (h : (lexeme scan).Reads c i d) (hscan : Cuts scan) :
    c.Passes i.name.toList d ∧ i.span = ⟨c.offset, d.offset⟩ := by
  obtain ⟨l, hl, rfl, hoffset⟩ := h.of_lexeme
  refine ⟨⟨?_, ?_⟩, rfl⟩
  · rw [String.toList_ofList, hscan _ _ _ hl]
  · rw [String.toList_ofList, hoffset]

theorem advances_lexeme {scan : Text.Scanner} (hscan : Cuts scan) : (lexeme scan).Advances :=
  fun _ _ _ h => (h.passes_lexeme hscan).1.reaches

theorem advances_exactly (text : String) : (exactly text).Advances :=
  fun _ _ _ h => h.of_exactly.reaches

theorem advances_gap : gap.Advances :=
  fun c _ _ h => h.of_gap ▸ c.reaches_pastGap

theorem Advances.gapThen (hp : p.Advances) : (gapThen p).Advances :=
  advances_gap.bind fun _ => hp

theorem Advances.behindGaps (hp : p.Advances) {c d : Cursor} {as : List α}
    (h : ReadsItemsBehindGaps p c as d) : c.Reaches d := by
  induction h with
  | nil => exact .refl _
  | @cons c d e a as hitem _ ih =>
      exact (c.reaches_pastGap.trans (hp _ a d hitem)).trans ih

theorem Advances.many (hp : p.Advances) : (many p).Advances := by
  intro c as d h
  rcases h.of_many with ⟨-, rfl⟩ | ⟨a, rest, e, -, ha, hrest, -⟩
  · exact .refl _
  · exact (hp c a e ha).trans (hp.behindGaps hrest)

/-- Which bound a parser is given does not matter, as it advances with every one. -/
theorem advances_bounded {p : Nat → Parser α} (hp : ∀ n, (p n).Advances) (bound : Cursor → Nat) :
    Advances fun c trail => p (bound c) c trail :=
  fun c a d ⟨trail, trail', heq⟩ => hp (bound c) c a d ⟨trail, trail', heq⟩

theorem composes_advances : Composes @Advances where
  pure := advances_pure
  bind := Advances.bind
  symbol := Advances.symbol
  located := Advances.located
  fail := advances_fail
  orElse := Advances.orElse
  optional := Advances.optional
  many := Advances.many
  gap := advances_gap
  bounded := advances_bounded

end Parser

/-! ## The rules of the grammar -/

theorem cuts_word : Cuts Text.word :=
  fun _ _ _ h => (word_eq_some h).2.1

theorem cuts_keyword (kind : BlockKind) : Cuts (Lexeme.keyword kind) := by
  intro cs l rest h
  obtain ⟨rfl, heq, -⟩ := wholeWord_eq_some h
  exact heq

theorem cuts_boolean : Cuts Lexeme.boolean := by
  intro cs l rest h
  obtain ⟨value, hvalue⟩ := boolean_eq_some h
  obtain ⟨rfl, heq, -⟩ := wholeWord_eq_some hvalue
  exact heq

theorem cuts_number : Cuts Lexeme.number :=
  fun _ _ _ h => (number_eq_some h).2.1

theorem cuts_stringInner : Cuts fun cs => some (Lexeme.stringInner cs) := by
  intro cs l rest h
  have happend := stringInner_append cs
  rw [Option.some.inj h] at happend
  exact happend.symm

theorem cuts_attributeName : Cuts Lexeme.attributeName :=
  fun _ _ _ h => (attributeName_eq_some h).2.1

theorem cuts_rawArgument : Cuts Lexeme.rawArgument :=
  fun _ _ _ h => (rawArgument_eq_some h).2

theorem advances_stringLiteral : stringLiteral.Advances := by
  refine Advances.symbol ((advances_exactly "\"").bind fun _ => ?_) _
  refine ((advances_lexeme cuts_stringInner).symbol _).bind fun _ => ?_
  exact (advances_exactly "\"").bind fun _ => advances_pure _

theorem holdsOfLexemes_advances : HoldsOfLexemes @Advances where
  word := advances_lexeme cuts_word
  number := advances_lexeme cuts_number
  boolean := advances_lexeme cuts_boolean
  stringLiteral := advances_stringLiteral
  exactly mark _ := advances_exactly mark

theorem advances_anyValue : anyValue.Advances :=
  composes_advances.anyValue holdsOfLexemes_advances

theorem advances_fieldType : fieldType.Advances :=
  composes_advances.fieldType holdsOfLexemes_advances

end SchemaMigration.Grammar
