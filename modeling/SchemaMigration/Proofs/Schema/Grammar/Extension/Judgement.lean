import SchemaMigration.Proofs.Schema.Grammar.Inversion

/-! # Reading in a longer text

A text may be extended at its end, and stand behind another one. What a parser has read in it is then
read again, with every range shifted, provided that the parser has not looked at the end of the text.
It looks no further than to the first character behind the gap that follows what it reads, or to the
second one; so a condition on what follows is all that is asked.
-/

namespace SchemaMigration

open Text (byteLength)

/-! ## Shifted ranges -/

def Span.shift (k : Nat) (s : Span) : Span :=
  ⟨s.start + k, s.stop + k⟩

def Ident.shift (k : Nat) (i : Ident) : Ident :=
  ⟨i.name, i.span.shift k⟩

namespace Grammar

/-- The same place when the text is longer at its end and comes later by some bytes. -/
def Cursor.extended (ext : List Char) (k : Nat) (c : Cursor) : Cursor :=
  ⟨c.rest ++ ext, c.offset + k⟩

/-- Whether a text starts with something that is not skipped. -/
def StartsSolid (cs : List Char) : Prop :=
  cs.head?.any isSolid = true

section Cursors

variable {ext : List Char} {k : Nat} {c : Cursor} {cs : List Char}

theorem ne_nil_of_afterGap (h : StartsSolid (afterGap cs)) : cs ≠ [] := by
  rintro rfl
  cases h

/-- A gap that something follows ends at the same place. -/
theorem skip_extended (inComment : Bool) (offset : Nat) (cs : List Char)
    (h : StartsSolid (Parser.skip inComment offset cs).rest) :
    Parser.skip inComment (offset + k) (cs ++ ext) =
      (Parser.skip inComment offset cs).extended ext k := by
  fun_induction Parser.skip inComment offset cs with
  | case1 offset c cs ih =>
      rw [List.cons_append, Parser.skip, ← ih h, Nat.add_right_comm]
  | case2 offset cs ih =>
      rw [List.cons_append, List.cons_append, Parser.skip, ← ih h, Nat.add_right_comm]
  | case3 offset c cs hslash hgap ih =>
      have hne : c ≠ '/' := by
        rintro rfl
        exact absurd hgap (by decide)
      rw [List.cons_append, Parser.skip, if_pos hgap, ← ih h, Nat.add_right_comm]
      exact fun _ hc => absurd hc hne
  | case4 offset c cs hslash hgap =>
      have hne : c ≠ '/' := by
        rintro rfl
        cases h
      rw [List.cons_append, Parser.skip, if_neg hgap]
      · rfl
      · exact fun _ hc => absurd hc hne
  | case5 => cases h

theorem pastGap_extended (h : StartsSolid c.pastGap.rest) :
    (c.extended ext k).pastGap = c.pastGap.extended ext k :=
  skip_extended false c.offset c.rest h

theorem afterGap_append (h : StartsSolid (afterGap cs)) :
    afterGap (cs ++ ext) = afterGap cs ++ ext := by
  have hskip : Parser.skip false (0 + 0) (cs ++ ext) =
      (Parser.skip false 0 cs).extended ext 0 := skip_extended false 0 cs h
  exact congrArg Cursor.rest hskip

end Cursors

namespace Parser

variable {α β : Type} {p q : Parser α} {g : α → Parser β} {c d e : Cursor} {a : α} {b : β}

/-! ## Parsers that give a value -/

/-- The parser gives a value and leads from one cursor to another, with every trail. -/
def Gives (p : Parser α) (c : Cursor) (a : α) (d : Cursor) : Prop :=
  ∀ trail, ∃ trail', p c trail = (some (a, d), trail')

theorem Gives.reads (h : p.Gives c a d) : p.Reads c a d := by
  obtain ⟨trail, heq⟩ := h {}
  exact ⟨{}, trail, heq⟩

theorem Gives.not_refuses (h : p.Gives c a d) : ¬p.Refuses c.rest := by
  intro hrefuses
  obtain ⟨trail, heq⟩ := h {}
  obtain ⟨trail', heq'⟩ := hrefuses c.offset {}
  cases heq.symm.trans heq'

theorem gives_pure (a : α) (c : Cursor) : (pure a : Parser α).Gives c a c :=
  fun trail => ⟨trail, rfl⟩

theorem Gives.bind (hp : p.Gives c a e) (hg : (g a).Gives e b d) : (p >>= g).Gives c b d := by
  intro trail
  obtain ⟨trail', heq⟩ := hp trail
  obtain ⟨trail'', heq'⟩ := hg trail'
  refine ⟨trail'', ?_⟩
  simp only [Bind.bind, heq]
  exact heq'

theorem Gives.symbol (h : p.Gives c a d) (s : Symbol) : (symbol s p).Gives c a d := by
  intro trail
  obtain ⟨trail', heq⟩ := h trail
  exact ⟨trail', by simp only [Parser.symbol, heq]⟩

theorem Gives.located (h : p.Gives c a d) :
    (located p).Gives c (a, ⟨c.offset, d.offset⟩) d := by
  intro trail
  obtain ⟨trail', heq⟩ := h trail
  exact ⟨trail', by simp only [Parser.located, heq]⟩

theorem Gives.orElse (h : p.Gives c a d) (q : Parser α) : (orElse p q).Gives c a d := by
  intro trail
  obtain ⟨trail', heq⟩ := h trail
  exact ⟨trail', by simp only [Parser.orElse, heq]⟩

theorem Refuses.orElse_gives (h : p.Refuses c.rest) (hq : q.Gives c a d) :
    (Parser.orElse p q).Gives c a d := by
  intro trail
  obtain ⟨trail', heq⟩ := h c.offset trail
  obtain ⟨trail'', heq'⟩ := hq trail'
  refine ⟨trail'', ?_⟩
  simp only [Parser.orElse, heq]
  exact heq'

/-- An alternative is chosen when all others fail. -/
theorem gives_first {ps : List (Parser α)} (hp : p ∈ ps) (h : p.Gives c a d)
    (hothers : ∀ q ∈ ps, q = p ∨ q.Refuses c.rest) : (first ps).Gives c a d := by
  induction ps with
  | nil => exact absurd hp List.not_mem_nil
  | cons q ps ih =>
      rcases hothers q List.mem_cons_self with rfl | hq
      · exact h.orElse _
      · apply hq.orElse_gives
        rcases List.mem_cons.mp hp with rfl | hp
        · exact absurd hq h.not_refuses
        · exact ih hp fun q hq => hothers q (List.mem_cons_of_mem _ hq)

theorem Gives.optional (h : p.Gives c a d) : (optional p).Gives c (some a) d := by
  intro trail
  obtain ⟨trail', heq⟩ := h trail
  exact ⟨trail', by simp only [Parser.optional, heq]⟩

theorem Refuses.optional_gives (h : p.Refuses c.rest) : (Parser.optional p).Gives c none c := by
  intro trail
  obtain ⟨trail', heq⟩ := h c.offset trail
  exact ⟨trail', by simp only [Parser.optional, heq]⟩

theorem gives_notNext {ch : Char} (h : c.rest.head? ≠ some ch) : (notNext ch).Gives c () c :=
  fun trail => ⟨trail, by simp only [notNext, if_neg h]⟩

theorem gives_atEnd (h : c.rest = []) : atEnd.Gives c () c :=
  fun trail => ⟨trail, by simp only [atEnd, h, List.isEmpty_nil, if_true]⟩

theorem Gives.afterGap {g : Unit → Parser α} (h : (g ()).Gives c.pastGap a d) :
    (gap >>= g).Gives c a d :=
  fun trail => h trail

/-- Items that are given one after another, each behind a gap. -/
inductive GivesItemsBehindGaps (p : Parser α) : Cursor → List α → Cursor → Prop
  | nil {c : Cursor} : GivesItemsBehindGaps p c [] c
  | cons {c d e : Cursor} {a : α} {as : List α}
      (hitem : p.Gives c.pastGap a d)
      (hitems : GivesItemsBehindGaps p d as e) : GivesItemsBehindGaps p c (a :: as) e

/-- Further items are given as long as there are any, when then none follows. -/
theorem GivesItemsBehindGaps.further {as : List α} (h : GivesItemsBehindGaps p c as d)
    (hend : p.Refuses d.pastGap.rest) {bound : Nat} (hbound : as.length ≤ bound) (trail : Trail) :
    ∃ trail', Parser.further p bound c trail = ((as, d), trail') := by
  induction h generalizing bound trail with
  | @nil c =>
      cases bound with
      | zero => exact ⟨trail, rfl⟩
      | succ bound =>
          obtain ⟨trail', heq⟩ := hend c.pastGap.offset trail
          have hgap : (gap >>= fun _ => p) c trail = (none, trail') := heq
          exact ⟨trail', by simp only [Parser.further, hgap]⟩
  | @cons c e d a as hitem _ ih =>
      obtain ⟨bound, rfl⟩ : ∃ n, bound = n + 1 := ⟨bound - 1, by simp at hbound; omega⟩
      obtain ⟨trail', heq⟩ := hitem trail
      have hgap : (gap >>= fun _ => p) c trail = (some (a, e), trail') := heq
      obtain ⟨trail'', heq'⟩ := ih hend (by simpa using hbound) trail'
      refine ⟨trail'', ?_⟩
      simp only [Parser.further, hgap]
      rw [heq']

theorem GivesItemsBehindGaps.reads {as : List α} (h : GivesItemsBehindGaps p c as d) :
    ReadsItemsBehindGaps p c as d := by
  induction h with
  | nil => exact .nil
  | cons hitem _ ih => exact .cons hitem.reads ih

/-- Items behind one gap and items behind the same gap elsewhere are items in one go. -/
theorem GivesItemsBehindGaps.append {as bs : List α} (h : GivesItemsBehindGaps p c as d)
    {d' e : Cursor} (h' : GivesItemsBehindGaps p d' bs e) (hgap : d.pastGap = d'.pastGap) :
    ∃ e', GivesItemsBehindGaps p c (as ++ bs) e' ∧ e'.pastGap = e.pastGap := by
  induction h with
  | @nil c =>
      cases h' with
      | nil => exact ⟨c, .nil, hgap⟩
      | cons hitem hitems => exact ⟨e, .cons (hgap ▸ hitem) hitems, rfl⟩
  | cons hitem _ ih =>
      obtain ⟨e', hitems, hpast⟩ := ih hgap
      exact ⟨e', .cons hitem hitems, hpast⟩

theorem Refuses.many_gives (h : p.Refuses c.rest) : (Parser.many p).Gives c [] c := by
  intro trail
  obtain ⟨trail', heq⟩ := h c.offset trail
  exact ⟨trail', by simp only [Parser.many, heq]⟩

theorem Gives.many {as : List α} (h : p.Gives c a e) (hitems : GivesItemsBehindGaps p e as d)
    (hend : p.Refuses d.pastGap.rest) (hbound : as.length ≤ e.rest.length + 1) :
    (many p).Gives c (a :: as) d := by
  intro trail
  obtain ⟨trail', heq⟩ := h trail
  obtain ⟨trail'', heq'⟩ := hitems.further hend hbound trail'
  refine ⟨trail'', ?_⟩
  simp only [Parser.many, heq]
  rw [heq']

/-! ## Lexemes in a longer text -/

variable {ext : List Char} {k : Nat}

/-- What a scanner recognises in a text it recognises in a longer one too, depending on what is
left. -/
def Keeps (scan : Text.Scanner) (Follow : List Char → Prop) : Prop :=
  ∀ cs l rest ext, scan cs = some (l, rest) → Follow rest →
    scan (cs ++ ext) = some (l, rest ++ ext)

theorem Reads.lexeme_extended {scan : Text.Scanner} {Follow : List Char → Prop} {i : Ident}
    (h : (lexeme scan).Reads c i d) (hscan : Keeps scan Follow) (hd : Follow d.rest) :
    (lexeme scan).Gives (c.extended ext k) (i.shift k) (d.extended ext k) := by
  obtain ⟨l, hl, rfl, hoffset⟩ := h.of_lexeme
  intro trail
  refine ⟨trail, ?_⟩
  have hstop : c.offset + k + byteLength l = d.offset + k := by omega
  simp only [lexeme, Cursor.extended, hscan _ _ _ ext hl hd, hstop]
  rfl

theorem Reads.exactly_extended {text : String} {u : Unit} (h : (exactly text).Reads c u d) :
    (exactly text).Gives (c.extended ext k) u (d.extended ext k) := by
  have hpasses := h.of_exactly
  intro trail
  refine ⟨trail, ?_⟩
  have hafter : Text.after? text.toList (c.rest ++ ext) = some (d.rest ++ ext) :=
    after?_eq_some_iff.mpr (by rw [hpasses.rest, List.append_assoc])
  have hstop : c.offset + k + byteLength text.toList = d.offset + k := by
    rw [hpasses.offset, Nat.add_right_comm]
  simp only [exactly, Bind.bind, lexeme, Cursor.extended, hafter, Option.map_some, hstop]
  rfl

/-- Something behind a gap is read behind the same gap. -/
theorem Gives.afterGap_extended {g : Unit → Parser α} {a' : α} (hsolid : StartsSolid c.pastGap.rest)
    (h : (g ()).Gives (c.pastGap.extended ext k) a' d) :
    (gap >>= g).Gives (c.extended ext k) a' d :=
  Gives.afterGap (pastGap_extended hsolid ▸ h)

/-! ## What is read is given -/

variable {p' : Parser α} {f : α → α} {Follow Stop : List Char → Prop}

/-- What the one parser reads, the other gives in a longer text, with its ranges shifted, if the text
goes on behind the next gap as it must. -/
def Carries (ext : List Char) (k : Nat) (p p' : Parser α) (f : α → α)
    (Follow : List Char → Prop) : Prop :=
  ∀ c a d, p.Reads c a d → Follow (Grammar.afterGap d.rest) →
    p'.Gives (c.extended ext k) (f a) (d.extended ext k)

/-- What it takes to read items behind gaps in a longer text: every item starts with something that
may follow an item, and so does what stops the items, which starts none. -/
structure CarriesItems (ext : List Char) (k : Nat) (p p' : Parser α) (f : α → α)
    (Follow Stop : List Char → Prop) : Prop where
  carries : Carries ext k p p' f Follow
  starts : ∀ c a d, p.Reads c a d → Follow c.rest
  solid : ∀ cs, Follow cs → StartsSolid cs
  stops : ∀ cs, Stop cs → Follow cs
  refuses : ∀ cs, Stop cs → p'.Refuses (cs ++ ext)

namespace CarriesItems

theorem follow_of_items (h : CarriesItems ext k p p' f Follow Stop) {as : List α}
    (hitems : ReadsItemsBehindGaps p c as d) (hstop : Stop (Grammar.afterGap d.rest)) :
    Follow (Grammar.afterGap c.rest) := by
  cases hitems with
  | nil => exact h.stops _ hstop
  | cons hitem _ => exact c.rest_pastGap ▸ h.starts _ _ _ hitem

theorem follow_of_many (h : CarriesItems ext k p p' f Follow Stop) {as : List α}
    (hmany : (Parser.many p).Reads c.pastGap as d) (hstop : Stop (Grammar.afterGap d.rest)) :
    Follow (Grammar.afterGap c.rest) := by
  rcases hmany.of_many with ⟨-, rfl⟩ | ⟨a, rest, e, -, ha, -, -⟩
  · rw [← Cursor.rest_pastGap, Cursor.pastGap_pastGap, Cursor.rest_pastGap] at hstop
    exact h.stops _ hstop
  · exact c.rest_pastGap ▸ h.starts _ _ _ ha

theorem items (h : CarriesItems ext k p p' f Follow Stop) {as : List α}
    (hitems : ReadsItemsBehindGaps p c as d) (hstop : Stop (Grammar.afterGap d.rest)) :
    GivesItemsBehindGaps p' (c.extended ext k) (as.map f) (d.extended ext k) := by
  induction hitems with
  | nil => exact .nil
  | @cons c e d a as hitem hitems ih =>
      refine .cons ?_ (ih hstop)
      rw [pastGap_extended (h.solid _ (h.starts _ _ _ hitem))]
      exact h.carries _ a e hitem (h.follow_of_items hitems hstop)

/-- All items behind a gap are given again behind the same gap. -/
theorem many (h : CarriesItems ext k p p' f Follow Stop) {as : List α}
    (hmany : (Parser.many p).Reads c.pastGap as d) (hstop : Stop (Grammar.afterGap d.rest)) :
    (Parser.many p').Gives (c.extended ext k).pastGap (as.map f) (d.extended ext k) := by
  have hsolid : StartsSolid (Grammar.afterGap c.rest) := h.solid _ (h.follow_of_many hmany hstop)
  have hpast : (c.extended ext k).pastGap = c.pastGap.extended ext k :=
    pastGap_extended (c.rest_pastGap ▸ hsolid)
  have hend : p'.Refuses (d.extended ext k).pastGap.rest := by
    rw [← Cursor.rest_pastGap] at hstop
    rw [pastGap_extended (h.solid _ (h.stops _ hstop))]
    exact h.refuses _ hstop
  rw [hpast]
  rcases hmany.of_many with ⟨rfl, rfl⟩ | ⟨a, rest, e, rfl, ha, hrest, hbound⟩
  · rw [← hpast, Cursor.pastGap_pastGap, hpast] at hend
    exact hend.many_gives
  · refine (h.carries _ a e ha (h.follow_of_items hrest hstop)).many (h.items hrest hstop) hend ?_
    rw [Cursor.extended, List.length_map, List.length_append]
    omega

end CarriesItems

end Parser

end Grammar

end SchemaMigration
