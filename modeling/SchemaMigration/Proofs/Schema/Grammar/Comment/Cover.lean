import SchemaMigration.Proofs.Schema.Grammar.Comment.Enclosed

/-! # Accepted texts are cut to their end

In a text that the grammar accepts, every string and all arguments of attributes close. So the cuts
into strings, comments, attributes and other characters never come to a halt before the end of it.
-/

namespace SchemaMigration.Grammar

open SchemaMigration.Grammar.Parser
open Text (word)

/-! ## Gaps -/

theorem isPlain_of_isGap {c : Char} (h : isGap c = true) : IsPlain c := by
  refine ⟨?_, ?_, ?_⟩ <;> (rintro rfl; cases h)

/-- Blanks and comments are cut off. Behind a comment that does not end with its line nothing follows. -/
theorem outside_gap {last : Bool} {gap rest : List Char} (h : IsGap last gap)
    (hlast : last = true → rest = []) : Outside rest (gap ++ rest) := by
  have hinside : ∀ {body : List Char}, (∀ c ∈ body, isLineEnd c = false) →
      ∀ c ∈ body, (!isLineEnd c) = true := fun hbody c hc => by rw [hbody c hc, Bool.not_false]
  induction h with
  | nil => exact .here
  | blank hc _ ih => exact .behind (afterToken?_of_plain (isPlain_of_isGap hc) _) (ih hlast)
  | @comment _ body lineEnd cs hbody hend _ ih =>
      have hgap : isGap lineEnd = true := isGap_of_isLineEnd hend
      have hcut : afterToken? ('/' :: '/' :: (body ++ lineEnd :: (cs ++ rest))) =
          some (lineEnd :: (cs ++ rest)) :=
        congrArg some (dropWhile_append_of_head (hinside hbody) (by simp [hend]))
      simp only [List.cons_append, List.append_assoc]
      exact .behind hcut (.behind (afterToken?_of_plain (isPlain_of_isGap hgap) _) (ih hlast))
  | @lastComment body hbody =>
      obtain rfl := hlast rfl
      have hcut : afterToken? ('/' :: '/' :: (body ++ [])) = some [] :=
        congrArg some (dropWhile_append_of_head (hinside hbody) rfl)
      exact .behind hcut .here

theorem Cursor.outside_pastGap (c : Cursor) : Outside c.pastGap.rest c.rest := by
  obtain ⟨gap, ⟨hsplit, -⟩, hgap⟩ := c.passes_pastGap (decide (c.pastGap.rest = [])) decide_eq_true
  rw [hsplit]
  exact outside_gap hgap of_decide_eq_true

/-! ## What is read is cut off -/

namespace Parser

variable {α β : Type} {p : Parser α} {f : α → Parser β}

/-- Cuts lead from where the parser starts to where it ends. -/
def Covers (p : Parser α) : Prop :=
  ∀ c a d, p.Reads c a d → Outside d.rest c.rest

/-- Cuts lead from where the parser starts to where it ends, unless it ends before a parenthesis; and it
passes none that it starts before. So it cannot go on behind arguments that never close. -/
structure Skirts (p : Parser α) : Prop where
  covers : ∀ c a d, p.Reads c a d → d.rest.head? ≠ some '(' → Outside d.rest c.rest
  halts : ∀ c a d, p.Reads c a d → c.rest.head? = some '(' → d = c

theorem covers_pure (a : α) : (pure a : Parser α).Covers := by
  intro c b d h
  obtain ⟨-, rfl⟩ := h.of_pure
  exact .here

theorem Covers.bind (hp : p.Covers) (hf : ∀ a, (f a).Covers) : (p >>= f).Covers := by
  intro c b d h
  obtain ⟨a, e, hreads, hrest⟩ := h.of_bind
  exact (hf a e b d hrest).trans (hp c a e hreads)

theorem Covers.symbol (hp : p.Covers) (s : Symbol) : (symbol s p).Covers :=
  fun c a d h => hp c a d h.of_symbol

theorem Covers.located (hp : p.Covers) : (located p).Covers :=
  fun c r d h => hp c r.1 d h.of_located.1

theorem covers_fail : (fail : Parser α).Covers :=
  fun _ _ _ h => absurd h not_reads_fail

theorem Covers.orElse {q : Parser α} (hp : p.Covers) (hq : q.Covers) : (orElse p q).Covers := by
  intro c a d h
  rcases h.of_orElse with hread | ⟨-, hread⟩
  · exact hp c a d hread
  · exact hq c a d hread

theorem Covers.optional (hp : p.Covers) : (optional p).Covers := by
  intro c o d h
  rcases h.of_optional with ⟨a, -, ha⟩ | ⟨-, rfl⟩
  · exact hp c a d ha
  · exact .here

theorem covers_gap : gap.Covers :=
  fun c _ _ h => h.of_gap ▸ c.outside_pastGap

theorem Covers.gapThen (hp : p.Covers) : (gapThen p).Covers :=
  covers_gap.bind fun _ => hp

theorem Covers.behindGaps (hp : p.Covers) {c d : Cursor} {as : List α}
    (h : ReadsItemsBehindGaps p c as d) : Outside d.rest c.rest := by
  induction h with
  | nil => exact .here
  | @cons c d e a as hitem _ ih => exact ih.trans ((hp _ a d hitem).trans c.outside_pastGap)

theorem Covers.many (hp : p.Covers) : (many p).Covers := by
  intro c as d h
  rcases h.of_many with ⟨-, rfl⟩ | ⟨a, rest, e, -, ha, hrest, -⟩
  · exact .here
  · exact (hp.behindGaps hrest).trans (hp c a e ha)

theorem covers_bounded {p : Nat → Parser α} (hp : ∀ n, (p n).Covers) (bound : Cursor → Nat) :
    Covers fun c trail => p (bound c) c trail :=
  fun c a d ⟨trail, trail', heq⟩ => hp (bound c) c a d ⟨trail, trail', heq⟩

theorem composes_covers : Composes @Covers where
  pure := covers_pure
  bind := Covers.bind
  symbol := Covers.symbol
  located := Covers.located
  fail := covers_fail
  orElse := Covers.orElse
  optional := Covers.optional
  many := Covers.many
  gap := covers_gap
  bounded := covers_bounded

/-- A lexeme of plain characters. -/
theorem covers_lexeme {scan : Text.Scanner} (hcuts : Cuts scan)
    (hplain : ∀ cs l rest, scan cs = some (l, rest) → ∀ c ∈ l, IsPlain c) : (lexeme scan).Covers := by
  intro c i d h
  obtain ⟨l, hl, -, -⟩ := h.of_lexeme
  rw [hcuts _ _ _ hl]
  exact outside_plain (hplain _ _ _ hl) d.rest

theorem covers_exactly {text : String} (htext : text ∈ marks) : (exactly text).Covers := by
  intro c _ d h
  rw [h.of_exactly.rest]
  exact outside_plain (fun c hc => ((isPlain_of_mem_marks htext).2 c hc).1) d.rest

/-! ## Parsers that stop before a parenthesis -/

theorem Refuses.not_reads {c d : Cursor} {a : α} (h : p.Refuses c.rest) : ¬p.Reads c a d := by
  rintro ⟨trail, trail', heq⟩
  obtain ⟨_, hnone⟩ := h c.offset trail
  cases heq.symm.trans hnone

/-- A parser that passes no parenthesis because it fails there. -/
theorem Covers.skirts (hp : p.Covers) (hfails : ∀ cs, cs.head? = some '(' → p.Refuses cs) :
    p.Skirts where
  covers c a d h _ := hp c a d h
  halts c _ _ h hhead := absurd h (hfails c.rest hhead).not_reads

theorem skirts_pure (a : α) : (pure a : Parser α).Skirts where
  covers c b d h _ := covers_pure a c b d h
  halts _ _ _ h _ := h.of_pure.2

theorem Skirts.bind (hp : p.Skirts) (hf : ∀ a, (f a).Skirts) : (p >>= f).Skirts where
  covers c b d h hrest := by
    obtain ⟨a, e, hreads, hafter⟩ := h.of_bind
    -- Before a parenthesis the second parser would go no further.
    have hmiddle : e.rest.head? ≠ some '(' := by
      intro hhead
      rw [(hf a).halts e b d hafter hhead] at hrest
      exact hrest hhead
    exact ((hf a).covers e b d hafter hrest).trans (hp.covers c a e hreads hmiddle)
  halts c b d h hhead := by
    obtain ⟨a, e, hreads, hafter⟩ := h.of_bind
    obtain rfl := hp.halts c a e hreads hhead
    exact (hf a).halts e b d hafter hhead

theorem Skirts.symbol (hp : p.Skirts) (s : Symbol) : (symbol s p).Skirts where
  covers c a d h := hp.covers c a d h.of_symbol
  halts c a d h := hp.halts c a d h.of_symbol

theorem Skirts.located (hp : p.Skirts) : (located p).Skirts where
  covers c r d h := hp.covers c r.1 d h.of_located.1
  halts c r d h := hp.halts c r.1 d h.of_located.1

theorem skirts_fail : (fail : Parser α).Skirts where
  covers _ _ _ h := absurd h not_reads_fail
  halts _ _ _ h := absurd h not_reads_fail

theorem Skirts.orElse {q : Parser α} (hp : p.Skirts) (hq : q.Skirts) : (orElse p q).Skirts where
  covers c a d h := by
    rcases h.of_orElse with hread | ⟨-, hread⟩
    · exact hp.covers c a d hread
    · exact hq.covers c a d hread
  halts c a d h := by
    rcases h.of_orElse with hread | ⟨-, hread⟩
    · exact hp.halts c a d hread
    · exact hq.halts c a d hread

theorem Skirts.optional (hp : p.Skirts) : (optional p).Skirts where
  covers c o d h hrest := by
    rcases h.of_optional with ⟨a, -, ha⟩ | ⟨-, rfl⟩
    · exact hp.covers c a d ha hrest
    · exact .here
  halts c o d h hhead := by
    rcases h.of_optional with ⟨a, -, ha⟩ | ⟨-, rfl⟩
    · exact hp.halts c a d ha hhead
    · rfl

theorem skirts_bounded {p : Nat → Parser α} (hp : ∀ n, (p n).Skirts) (bound : Cursor → Nat) :
    Skirts fun c trail => p (bound c) c trail where
  covers := fun c a d ⟨trail, trail', heq⟩ => (hp (bound c)).covers c a d ⟨trail, trail', heq⟩
  halts := fun c a d ⟨trail, trail', heq⟩ => (hp (bound c)).halts c a d ⟨trail, trail', heq⟩

theorem pastGap_of_parenthesis {c : Cursor} (h : c.rest.head? = some '(') : c.pastGap = c := by
  obtain ⟨cs, offset⟩ := c
  obtain ⟨cs, rfl⟩ := exists_cons_of_head h
  have hskip : skip false offset ('(' :: cs) = ⟨'(' :: cs, offset⟩ :=
    skip_solid rfl (fun hslash => absurd hslash (by decide)) offset
  exact hskip

theorem skirts_gap : gap.Skirts where
  covers c u d h _ := covers_gap c u d h
  halts _ _ _ h hhead := h.of_gap.trans (pastGap_of_parenthesis hhead)

theorem Skirts.gapThen (hp : p.Skirts) : (gapThen p).Skirts :=
  skirts_gap.bind fun _ => hp

theorem Skirts.behindGaps (hp : p.Skirts) {c d : Cursor} {as : List α}
    (h : ReadsItemsBehindGaps p c as d) :
    (d.rest.head? ≠ some '(' → Outside d.rest c.rest) ∧ (c.rest.head? = some '(' → d = c) := by
  induction h with
  | nil => exact ⟨fun _ => .here, fun _ => rfl⟩
  | @cons c d e a as hitem _ ih =>
      obtain ⟨hcovers, hhalts⟩ := ih
      refine ⟨fun hrest => ?_, fun hhead => ?_⟩
      · have hmiddle : d.rest.head? ≠ some '(' := by
          intro hhead
          rw [hhalts hhead] at hrest
          exact hrest hhead
        exact (hcovers hrest).trans ((hp.covers _ a d hitem hmiddle).trans c.outside_pastGap)
      · rw [pastGap_of_parenthesis hhead] at hitem
        obtain rfl := hp.halts c a d hitem hhead
        exact hhalts hhead

theorem Skirts.many (hp : p.Skirts) : (many p).Skirts where
  covers c as d h hrest := by
    rcases h.of_many with ⟨-, rfl⟩ | ⟨a, rest, e, -, ha, hitems, -⟩
    · exact .here
    · obtain ⟨hcovers, hhalts⟩ := hp.behindGaps hitems
      have hmiddle : e.rest.head? ≠ some '(' := by
        intro hhead
        rw [hhalts hhead] at hrest
        exact hrest hhead
      exact (hcovers hrest).trans (hp.covers c a e ha hmiddle)
  halts c as d h hhead := by
    rcases h.of_many with ⟨-, rfl⟩ | ⟨a, rest, e, -, ha, hitems, -⟩
    · rfl
    · obtain rfl := hp.halts c a e ha hhead
      exact (hp.behindGaps hitems).2 hhead

theorem composes_skirts : Composes @Skirts where
  pure := skirts_pure
  bind := Skirts.bind
  symbol := Skirts.symbol
  located := Skirts.located
  fail := skirts_fail
  orElse := Skirts.orElse
  optional := Skirts.optional
  many := Skirts.many
  gap := skirts_gap
  bounded := skirts_bounded

/-- What goes on with something other than a parenthesis has closed all arguments before. -/
theorem Skirts.bind_covers (hp : p.Skirts) (hf : ∀ a, (f a).Covers)
    (hfails : ∀ a cs, cs.head? = some '(' → (f a).Refuses cs) : (p >>= f).Covers := by
  intro c b d h
  obtain ⟨a, e, hreads, hafter⟩ := h.of_bind
  refine (hf a e b d hafter).trans (hp.covers c a e hreads fun hhead => ?_)
  exact (hfails a e.rest hhead).not_reads hafter

end Parser

/-! ## Strings and attributes -/

theorem covers_stringLiteral : stringLiteral.Covers := by
  intro c a d h
  obtain ⟨inner, hinner⟩ := readsPiece_stringLiteral.of_reads h
  obtain ⟨inside, hsplit, hclosed⟩ := enclosed?_eq_some hinner
  rw [hsplit]
  exact .behind (congrArg (Option.map Prod.snd) hclosed) .here

theorem outside_attributeText {cs rest : List Char} {x : List Char × Option (List Char)}
    (h : attributeText? cs = some (x, rest)) (hrest : rest.head? ≠ some '(') :
    Outside rest ('@' :: cs) := by
  obtain ⟨after, hname, ⟨raw, -, hclosed⟩ | ⟨-, -, rfl⟩⟩ := attributeText?_cases h
  · obtain ⟨inside, rfl, hinside⟩ := enclosed?_eq_some hclosed
    refine .behind ?_ .here
    simp only [afterToken?, hname, hinside, Option.map_some]
  · refine .behind (afterToken?_of_bare hname hrest) ?_
    rw [(attributeName_eq_some hname).2.1]
    exact outside_plain (isPlain_of_attributeName hname) rest

theorem skirts_marked {α : Type} {p : Parser α} {value : Nat → List Char × Option (List Char) → α}
    {size : List Char × Option (List Char) → Nat} (hp : p.ReadsPiece attributeText? value size)
    {text : String} {mark : List Char} (htext : text.toList = mark)
    (hmark : mark = ['@'] ∨ mark = ['@', '@']) : Skirts (do exactly text; p) where
  covers c a d h hrest := by
    obtain ⟨x, hpiece⟩ := (hp.behind htext).of_reads h
    obtain ⟨more, hafter, hattribute⟩ := Option.bind_eq_some_iff.mp hpiece
    have hattribute := outside_attributeText hattribute hrest
    rw [after?_eq_some_iff.mp hafter]
    rcases hmark with rfl | rfl
    · exact hattribute
    · exact .behind rfl hattribute
  halts c a d h hhead := by
    have hfails : ∀ e l, text.toList = e :: l → e ≠ '(' → (exactly text).Refuses c.rest :=
      fun e l htext hne => refuses_exactly_of_head htext (by simp [hhead, hne.symm])
    refine absurd h (Refuses.not_reads (Refuses.bind ?_ _))
    rcases hmark with rfl | rfl
    · exact hfails '@' [] htext (by decide)
    · exact hfails '@' ['@'] htext (by decide)

theorem skirts_fieldAttribute : fieldAttribute.Skirts := by
  refine Skirts.bind (Skirts.located (Skirts.symbol ?_ _)) fun _ => skirts_pure _
  exact skirts_marked readsPiece_notNext rfl (.inl rfl)

theorem skirts_blockAttribute : blockAttribute.Skirts := by
  refine Skirts.bind (Skirts.located (Skirts.symbol ?_ _)) fun _ => skirts_pure _
  exact skirts_marked readsPiece_attributeBody rfl (.inr rfl)

/-! ## The rules of the grammar -/

theorem holdsOfLexemes_covers : HoldsOfLexemes @Covers where
  word := covers_lexeme cuts_word fun _ _ _ h => (isPlain_of_isWord (word_eq_some h).1).2
  number := covers_lexeme cuts_number fun _ _ _ h => (isPlain_of_number h).2
  boolean := covers_lexeme cuts_boolean fun _ _ _ h => (isPlain_of_boolean h).2
  stringLiteral := covers_stringLiteral
  exactly _ hmark := covers_exactly hmark

theorem refuses_identifier_of_parenthesis {cs : List Char} (h : cs.head? = some '(') :
    identifier.Refuses cs := by
  refine (refuses_lexeme (word_eq_none ?_)).symbol _
  rw [h]
  rfl

theorem holdsOfParts_skirts : HoldsOfParts @Skirts where
  identifier := (composes_covers.identifier holdsOfLexemes_covers).skirts fun _ =>
    refuses_identifier_of_parenthesis
  fieldType := (composes_covers.fieldType holdsOfLexemes_covers).skirts fun _ h =>
    ((refuses_identifier_of_parenthesis h).bind _).symbol _
  assignment := (composes_covers.assignment holdsOfLexemes_covers).skirts fun _ h =>
    (((refuses_identifier_of_parenthesis h).bind _).symbol _).located.bind _
  fieldAttribute := skirts_fieldAttribute
  blockAttribute := skirts_blockAttribute

/-- The brace that closes a block stands behind closed arguments. -/
theorem covers_block (kind : BlockKind) : (block kind).Covers := by
  refine Covers.bind (Covers.located (Covers.symbol ?_ _)) fun _ => covers_pure _
  refine Covers.bind (Covers.symbol ?_ _) fun _ => ?_
  · exact covers_lexeme (cuts_keyword kind) fun _ _ _ h => (isPlain_of_keyword h).2
  refine (composes_covers.identifier holdsOfLexemes_covers).gapThen.bind fun _ => ?_
  refine (composes_covers.mark holdsOfLexemes_covers (by decide)).bind fun _ => ?_
  have hmembers := (composes_skirts.member holdsOfParts_skirts kind).many.gapThen
  refine hmembers.bind_covers (fun _ => ?_) fun _ cs h => ?_
  · exact (composes_covers.mark holdsOfLexemes_covers (by decide)).bind fun _ => covers_pure _
  · have hclose : (exactly "\x7d").Refuses (afterGap cs) := by
      obtain ⟨cs, rfl⟩ := exists_cons_of_head h
      rw [afterGap_of_isSolid rfl]
      exact refuses_exactly_of_head (c := '\x7d') rfl (by simp)
    exact Refuses.bind (Refuses.afterGap hclose) _

/-- In an accepted text cuts lead to its end. -/
theorem outside_nil_of_outline {text : List Char} {blocks : List Block} {c : Cursor}
    (h : outline.Reads (.start text) blocks c) : Outside [] text := by
  have hend : atEnd.Covers := fun c _ _ h => h.of_atEnd.1 ▸ .here
  have hcovers := composes_covers.outline covers_block hend (.start text) blocks c h
  obtain ⟨_, _, -, hrest⟩ := h.of_symbol.of_bind
  obtain ⟨_, e, hlast, hpure⟩ := hrest.of_bind
  obtain ⟨rfl, hnil⟩ := hlast.of_afterGap.of_symbol.of_atEnd
  rw [hpure.of_pure.2, hnil] at hcovers
  exact hcovers

end SchemaMigration.Grammar
