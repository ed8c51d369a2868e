import SchemaMigration.Proofs.Schema.Grammar.Judgement
import SchemaMigration.Proofs.Text.Position

/-! # What a parser has read

When a parser has given a value, it has read its parts one after another. There is a rule for every
way in which parsers are put together, so that a successful reading of the grammar can be taken
apart into what was read at each place.
-/

namespace SchemaMigration.Grammar

open Text (byteLength byteLength_append)

namespace Cursor

/-- Reading a part of the text leads from one cursor to another. -/
structure Passes (c : Cursor) (part : List Char) (d : Cursor) : Prop where
  rest : c.rest = part ++ d.rest
  offset : d.offset = c.offset + byteLength part

theorem Passes.refl (c : Cursor) : c.Passes [] c :=
  ⟨rfl, rfl⟩

theorem Passes.trans {c d e : Cursor} {part more : List Char} (h : c.Passes part d)
    (h' : d.Passes more e) : c.Passes (part ++ more) e where
  rest := by rw [h.rest, h'.rest, List.append_assoc]
  offset := by rw [h'.offset, h.offset, byteLength_append, Nat.add_assoc]

theorem passes_char (ch : Char) (cs : List Char) (offset : Nat) :
    Passes ⟨ch :: cs, offset⟩ [ch] ⟨cs, offset + ch.utf8Size⟩ :=
  ⟨rfl, rfl⟩

/-- A cursor comes before another one in the same text. -/
def Reaches (c d : Cursor) : Prop :=
  ∃ part, c.Passes part d

theorem Passes.reaches {c d : Cursor} {part : List Char} (h : c.Passes part d) : c.Reaches d :=
  ⟨part, h⟩

theorem Reaches.refl (c : Cursor) : c.Reaches c :=
  (Passes.refl c).reaches

theorem Reaches.trans {c d e : Cursor} (h : c.Reaches d) (h' : d.Reaches e) : c.Reaches e := by
  obtain ⟨part, hpart⟩ := h
  obtain ⟨more, hmore⟩ := h'
  exact (hpart.trans hmore).reaches

theorem Reaches.offset_le {c d : Cursor} (h : c.Reaches d) : c.offset ≤ d.offset := by
  obtain ⟨part, hpart⟩ := h
  exact hpart.offset ▸ Nat.le_add_right _ _

theorem Reaches.rest_ne_nil {c d : Cursor} (h : c.Reaches d) (hd : d.rest ≠ []) :
    c.rest ≠ [] := by
  obtain ⟨part, hpart⟩ := h
  rw [hpart.rest]
  exact List.append_ne_nil_of_right_ne_nil part hd

/-- The cursor behind the gap that starts at a cursor. -/
def pastGap (c : Cursor) : Cursor :=
  Parser.skip false c.offset c.rest

theorem rest_pastGap (c : Cursor) : c.pastGap.rest = afterGap c.rest :=
  skip_rest_eq _ _ _ _

theorem pastGap_pastGap (c : Cursor) : c.pastGap.pastGap = c.pastGap := by
  suffices hskip : ∀ inComment offset cs,
      (Parser.skip inComment offset cs).pastGap = Parser.skip inComment offset cs from
    hskip false c.offset c.rest
  intro inComment offset cs
  fun_induction Parser.skip inComment offset cs with
  | case4 offset c cs hslash hgap =>
      rw [pastGap, Parser.skip, if_neg hgap]
      exact hslash
  | case5 => rfl
  | _ => assumption

end Cursor

namespace Parser

variable {α β : Type} {p q : Parser α} {f : α → Parser β} {c d : Cursor} {a : α} {b : β}

/-- The parser gives a value and leads from one cursor to another, with some trail. -/
def Reads (p : Parser α) (c : Cursor) (a : α) (d : Cursor) : Prop :=
  ∃ trail trail', p c trail = (some (a, d), trail')

/-- The parser fails at a cursor, with some trail. -/
def Fails (p : Parser α) (c : Cursor) : Prop :=
  ∃ trail trail', p c trail = (none, trail')

/-! ## Sequences -/

theorem Reads.of_pure {a' : α} (h : (pure a : Parser α).Reads c a' d) : a' = a ∧ d = c := by
  obtain ⟨trail, trail', heq⟩ := h
  cases heq
  exact ⟨rfl, rfl⟩

theorem Reads.of_bind (h : (p >>= f).Reads c b d) :
    ∃ a e, p.Reads c a e ∧ (f a).Reads e b d := by
  obtain ⟨trail, trail', heq⟩ := h
  simp only [Bind.bind] at heq
  split at heq
  next a e trail'' hp => exact ⟨a, e, ⟨trail, trail'', hp⟩, trail'', trail', heq⟩
  next => cases heq

theorem Fails.of_bind_pure {g : α → β} (h : (p >>= fun a => pure (g a)).Fails c) : p.Fails c := by
  obtain ⟨trail, trail', heq⟩ := h
  simp only [Bind.bind] at heq
  split at heq
  next => cases heq
  next trail'' hp => exact ⟨trail, trail'', hp⟩

/-! ## Symbols and places -/

theorem Reads.of_symbol {s : Symbol} (h : (symbol s p).Reads c a d) : p.Reads c a d := by
  obtain ⟨trail, trail', heq⟩ := h
  simp only [symbol] at heq
  split at heq
  next r after hp =>
      cases heq
      exact ⟨trail, trail', hp⟩
  next => cases heq

theorem Fails.of_symbol {s : Symbol} (h : (symbol s p).Fails c) : p.Fails c := by
  obtain ⟨trail, trail', heq⟩ := h
  simp only [symbol] at heq
  split at heq
  next => cases heq
  next after hp => exact ⟨trail, after, hp⟩

theorem Reads.of_located {r : α × Span} (h : (located p).Reads c r d) :
    p.Reads c r.1 d ∧ r.2 = ⟨c.offset, d.offset⟩ := by
  obtain ⟨trail, trail', heq⟩ := h
  simp only [located] at heq
  split at heq
  next a e trail'' hp =>
      cases heq
      exact ⟨⟨trail, trail', hp⟩, rfl⟩
  next => cases heq

/-! ## Choices -/

theorem not_reads_fail : ¬(fail : Parser α).Reads c a d := by
  intro h
  obtain ⟨trail, trail', heq⟩ := h
  cases heq

theorem Reads.of_orElse (h : (orElse p q).Reads c a d) :
    p.Reads c a d ∨ p.Fails c ∧ q.Reads c a d := by
  obtain ⟨trail, trail', heq⟩ := h
  simp only [orElse] at heq
  split at heq
  next r after hp =>
      cases heq
      exact .inl ⟨trail, trail', hp⟩
  next after hp => exact .inr ⟨⟨trail, after, hp⟩, after, trail', heq⟩

/-- The alternative that has been chosen is the first that did not fail. -/
theorem Reads.of_first {ps : List (Parser α)} (h : (first ps).Reads c a d) :
    ∃ before p after, ps = before ++ p :: after ∧ (∀ q ∈ before, q.Fails c) ∧ p.Reads c a d := by
  induction ps with
  | nil => exact absurd h not_reads_fail
  | cons p ps ih =>
      rcases Reads.of_orElse h with hp | ⟨hfails, hfirst⟩
      · exact ⟨[], p, ps, rfl, List.forall_mem_nil _, hp⟩
      · obtain ⟨before, q, after, rfl, hbefore, hq⟩ := ih hfirst
        exact ⟨p :: before, q, after, rfl, List.forall_mem_cons.mpr ⟨hfails, hbefore⟩, hq⟩

theorem Reads.of_optional {o : Option α} (h : (optional p).Reads c o d) :
    (∃ a, o = some a ∧ p.Reads c a d) ∨ o = none ∧ d = c := by
  obtain ⟨trail, trail', heq⟩ := h
  simp only [optional] at heq
  split at heq
  next a e after hp =>
      cases heq
      exact .inl ⟨a, rfl, trail, trail', hp⟩
  next =>
      cases heq
      exact .inr ⟨rfl, rfl⟩

/-! ## Lexemes -/

theorem Reads.of_lexeme {scan : Text.Scanner} {i : Ident} (h : (lexeme scan).Reads c i d) :
    ∃ l, scan c.rest = some (l, d.rest) ∧ i = ⟨String.ofList l, ⟨c.offset, d.offset⟩⟩ ∧
      d.offset = c.offset + byteLength l := by
  obtain ⟨trail, trail', heq⟩ := h
  simp only [lexeme] at heq
  split at heq
  next l rest hscan =>
      cases heq
      exact ⟨l, hscan, rfl, rfl⟩
  next => cases heq

theorem Fails.of_lexeme {scan : Text.Scanner} (h : (lexeme scan).Fails c) :
    scan c.rest = none := by
  obtain ⟨trail, trail', heq⟩ := h
  simp only [lexeme] at heq
  split at heq
  next => cases heq
  next hscan => exact hscan

theorem Reads.of_exactly {text : String} {u : Unit} (h : (exactly text).Reads c u d) :
    c.Passes text.toList d := by
  obtain ⟨i, e, hlexeme, hpure⟩ := Reads.of_bind h
  obtain ⟨l, hscan, -, hoffset⟩ := hlexeme.of_lexeme
  obtain ⟨-, rfl⟩ := hpure.of_pure
  obtain ⟨rest, hafter, heq⟩ := Option.map_eq_some_iff.mp hscan
  cases heq
  exact ⟨after?_eq_some_iff.mp hafter, hoffset⟩

theorem Reads.of_notNext {char : Char} {u : Unit} (h : (notNext char).Reads c u d) :
    d = c ∧ c.rest.head? ≠ some char := by
  obtain ⟨trail, trail', heq⟩ := h
  simp only [notNext] at heq
  split at heq
  next => cases heq
  next hhead =>
      cases heq
      exact ⟨rfl, hhead⟩

theorem Reads.of_atEnd {u : Unit} (h : atEnd.Reads c u d) : d = c ∧ c.rest = [] := by
  obtain ⟨trail, trail', heq⟩ := h
  simp only [atEnd] at heq
  split at heq
  next hempty =>
      cases heq
      exact ⟨rfl, List.isEmpty_iff.mp hempty⟩
  next => cases heq

/-! ## Gaps and repetition -/

theorem Reads.of_gap {u : Unit} (h : gap.Reads c u d) : d = c.pastGap := by
  obtain ⟨trail, trail', heq⟩ := h
  cases heq
  rfl

theorem Reads.of_afterGap {g : Unit → Parser α} (h : (gap >>= g).Reads c a d) :
    (g ()).Reads c.pastGap a d := by
  obtain ⟨u, e, hgap, hg⟩ := h.of_bind
  exact hgap.of_gap ▸ hg

/-- Items that have been read one after another, each behind a gap. -/
inductive ReadsItemsBehindGaps (p : Parser α) : Cursor → List α → Cursor → Prop
  | nil {c : Cursor} : ReadsItemsBehindGaps p c [] c
  | cons {c d e : Cursor} {a : α} {as : List α}
      (hitem : p.Reads c.pastGap a d)
      (hitems : ReadsItemsBehindGaps p d as e) : ReadsItemsBehindGaps p c (a :: as) e

theorem readsItemsBehindGaps_of_further {bound : Nat} {trail trail' : Trail} {as : List α}
    (h : further p bound c trail = ((as, d), trail')) :
    ReadsItemsBehindGaps p c as d ∧ as.length ≤ bound := by
  induction bound generalizing c trail as with
  | zero =>
      cases h
      exact ⟨.nil, Nat.le_refl _⟩
  | succ bound ih =>
      simp only [further] at h
      split at h
      next a e trail'' hitem =>
          cases h
          obtain ⟨hitems, hbound⟩ := ih rfl
          have hreads : (gap >>= fun _ => p).Reads c a e := ⟨trail, trail'', hitem⟩
          exact ⟨.cons hreads.of_afterGap hitems, Nat.succ_le_succ hbound⟩
      next =>
          cases h
          exact ⟨.nil, Nat.zero_le _⟩

theorem Reads.of_many {as : List α} (h : (many p).Reads c as d) :
    as = [] ∧ d = c ∨ ∃ a rest e, as = a :: rest ∧ p.Reads c a e ∧
      ReadsItemsBehindGaps p e rest d ∧ rest.length ≤ e.rest.length + 1 := by
  obtain ⟨trail, trail', heq⟩ := h
  simp only [many] at heq
  split at heq
  next a e trail'' hp =>
      cases heq
      exact .inr ⟨a, _, e, rfl, ⟨trail, trail'', hp⟩, readsItemsBehindGaps_of_further rfl⟩
  next =>
      cases heq
      exact .inl ⟨rfl, rfl⟩

/-- All items behind a gap are items behind gaps. Without items the gap is not theirs. -/
theorem Reads.of_gap_many {as : List α} (h : (gap >>= fun _ => many p).Reads c as d) :
    ∃ e, ReadsItemsBehindGaps p c as e ∧ e.pastGap = d.pastGap := by
  rcases h.of_afterGap.of_many with ⟨rfl, rfl⟩ | ⟨a, rest, e, rfl, ha, hrest, -⟩
  · exact ⟨c, .nil, c.pastGap_pastGap.symm⟩
  · exact ⟨d, .cons ha hrest, rfl⟩

end Parser

end SchemaMigration.Grammar
