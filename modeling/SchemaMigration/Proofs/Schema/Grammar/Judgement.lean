import Mathlib.Data.List.Forall2
import SchemaMigration.Schema.Grammar.Parser

/-! # What a parser reads

Two judgements on a parser and a text: it gives a value and a rest with some property, or it fails.
Neither depends on the offset at which the text starts, nor on the trail. There is a rule for every
way in which parsers are put together, so that the reading of a text follows the form of the parser.
-/

namespace SchemaMigration.Grammar

open Text (byteLength)

/-- What is left of a text after the blanks and comments at its front. -/
def afterGap (cs : List Char) : List Char :=
  (Parser.skip false 0 cs).rest

section Gap

variable {c : Char} {cs : List Char}

theorem skip_rest_eq (inComment : Bool) (offset offset' : Nat) (cs : List Char) :
    (Parser.skip inComment offset cs).rest = (Parser.skip inComment offset' cs).rest := by
  fun_induction Parser.skip inComment offset cs generalizing offset' with
  | case1 offset c cs ih => exact ih _
  | case2 offset cs ih => exact ih _
  | case3 offset c cs hslash hgap ih =>
      rw [Parser.skip, if_pos hgap]
      · exact ih _
      · exact hslash
  | case4 offset c cs hslash hgap =>
      rw [Parser.skip, if_neg hgap]
      exact hslash
  | case5 inComment offset => cases inComment <;> rfl

theorem afterGap_cons_of_isGap (h : Parser.isGap c = true) : afterGap (c :: cs) = afterGap cs := by
  have hslash : c ≠ '/' := by
    rintro rfl
    exact absurd h (by decide)
  rw [afterGap, Parser.skip, if_pos h]
  · exact skip_rest_eq _ _ _ _
  · exact fun cs hc => absurd hc hslash

theorem afterGap_append_of_isGap {gap : List Char} (h : ∀ c ∈ gap, Parser.isGap c = true) :
    afterGap (gap ++ cs) = afterGap cs := by
  induction gap with
  | nil => rfl
  | cons c gap ih =>
      rw [List.cons_append, afterGap_cons_of_isGap (h c List.mem_cons_self)]
      exact ih fun c hc => h c (List.mem_cons_of_mem _ hc)

/-- Whether a character starts neither a blank nor a comment. -/
def isSolid (c : Char) : Bool :=
  !Parser.isGap c && c != '/'

theorem afterGap_of_isSolid (h : isSolid c = true) : afterGap (c :: cs) = c :: cs := by
  simp only [isSolid, Bool.and_eq_true, Bool.not_eq_true', bne_iff_ne] at h
  rw [afterGap, Parser.skip, if_neg (by simp [h.1])]
  exact fun cs hc => absurd hc h.2

theorem afterGap_append_of_isSolid {rest : List Char} (h : cs.head?.any isSolid = true) :
    afterGap (cs ++ rest) = cs ++ rest := by
  cases cs with
  | nil => simp at h
  | cons c cs => exact afterGap_of_isSolid h

theorem afterGap_afterGap (cs : List Char) : afterGap (afterGap cs) = afterGap cs := by
  suffices hskip : ∀ inComment offset,
      afterGap (Parser.skip inComment offset cs).rest = (Parser.skip inComment offset cs).rest from
    hskip false 0
  intro inComment offset
  fun_induction Parser.skip inComment offset cs with
  | case4 offset c cs hslash hgap =>
      rw [afterGap, Parser.skip, if_neg hgap]
      exact hslash
  | case5 => rfl
  | _ => assumption

theorem length_afterGap_le (cs : List Char) : (afterGap cs).length ≤ cs.length := by
  suffices hskip : ∀ inComment offset,
      (Parser.skip inComment offset cs).rest.length ≤ cs.length from hskip false 0
  intro inComment offset
  fun_induction Parser.skip inComment offset cs with
  | case4 => exact Nat.le_refl _
  | case5 => exact Nat.le_refl _
  | _ => simp only [List.length_cons]; omega

end Gap

theorem after?_eq_some_iff {expected cs rest : List Char} :
    Text.after? expected cs = some rest ↔ cs = expected ++ rest := by
  induction expected generalizing cs with
  | nil => simp [Text.after?]
  | cons e expected ih =>
      cases cs with
      | nil => simp [Text.after?]
      | cons c cs => simp [Text.after?, ih, eq_comm (a := e)]

namespace Parser

variable {α β : Type} {p q : Parser α} {f : α → Parser β} {cs : List Char}
  {Q R : α → List Char → Prop} {S : β → List Char → Prop}

/-- The parser gives a value and a rest of the text that have a property. -/
def Yields (p : Parser α) (cs : List Char) (Q : α → List Char → Prop) : Prop :=
  ∀ offset trail, ∃ a c trail', p ⟨cs, offset⟩ trail = (some (a, c), trail') ∧ Q a c.rest

def Refuses (p : Parser α) (cs : List Char) : Prop :=
  ∀ offset trail, ∃ trail', p ⟨cs, offset⟩ trail = (none, trail')

theorem Yields.mono (h : p.Yields cs Q) (himp : ∀ a rest, Q a rest → R a rest) :
    p.Yields cs R := by
  intro offset trail
  obtain ⟨a, c, trail', heq, hQ⟩ := h offset trail
  exact ⟨a, c, trail', heq, himp _ _ hQ⟩

theorem Yields.not_refuses (h : p.Yields cs Q) : ¬p.Refuses cs := by
  intro hrefuse
  obtain ⟨a, c, trail', heq, _⟩ := h 0 {}
  obtain ⟨trail'', heq'⟩ := hrefuse 0 {}
  rw [heq] at heq'
  cases heq'

/-! ## Sequences -/

theorem yields_pure {a : α} (h : Q a cs) : (pure a : Parser α).Yields cs Q :=
  fun offset trail => ⟨a, ⟨cs, offset⟩, trail, rfl, h⟩

theorem Yields.bind (h : p.Yields cs Q) (hf : ∀ a rest, Q a rest → (f a).Yields rest S) :
    (p >>= f).Yields cs S := by
  intro offset trail
  obtain ⟨a, c, trail', heq, hQ⟩ := h offset trail
  obtain ⟨b, c', trail'', heq', hS⟩ := hf a c.rest hQ c.offset trail'
  refine ⟨b, c', trail'', ?_, hS⟩
  simp only [Bind.bind, heq]
  exact heq'

theorem Refuses.bind (h : p.Refuses cs) (f : α → Parser β) : (p >>= f).Refuses cs := by
  intro offset trail
  obtain ⟨trail', heq⟩ := h offset trail
  exact ⟨trail', by simp only [Bind.bind, heq]⟩

theorem Yields.bind_refuses (h : p.Yields cs Q) (hf : ∀ a rest, Q a rest → (f a).Refuses rest) :
    (p >>= f).Refuses cs := by
  intro offset trail
  obtain ⟨a, c, trail', heq, hQ⟩ := h offset trail
  obtain ⟨trail'', heq'⟩ := hf a c.rest hQ c.offset trail'
  refine ⟨trail'', ?_⟩
  simp only [Bind.bind, heq]
  exact heq'

/-! ## Symbols and places -/

theorem Yields.symbol (h : p.Yields cs Q) (s : Symbol) : (symbol s p).Yields cs Q := by
  intro offset trail
  obtain ⟨a, c, trail', heq, hQ⟩ := h offset trail
  exact ⟨a, c, trail', by simp only [Parser.symbol, heq], hQ⟩

theorem Refuses.symbol (h : p.Refuses cs) (s : Symbol) : (symbol s p).Refuses cs := by
  intro offset trail
  obtain ⟨trail', heq⟩ := h offset trail
  exact ⟨trail.blame trail' s offset, by simp only [Parser.symbol, heq]⟩

theorem Yields.located (h : p.Yields cs Q) :
    (located p).Yields cs fun a rest => Q a.1 rest := by
  intro offset trail
  obtain ⟨a, c, trail', heq, hQ⟩ := h offset trail
  exact ⟨(a, ⟨offset, c.offset⟩), c, trail', by simp only [Parser.located, heq], hQ⟩

theorem Refuses.located (h : p.Refuses cs) : (located p).Refuses cs := by
  intro offset trail
  obtain ⟨trail', heq⟩ := h offset trail
  exact ⟨trail', by simp only [Parser.located, heq]⟩

/-! ## Choices -/

theorem refuses_fail : (fail : Parser α).Refuses cs :=
  fun _ trail => ⟨trail, rfl⟩

theorem Yields.orElse (h : p.Yields cs Q) (q : Parser α) : (orElse p q).Yields cs Q := by
  intro offset trail
  obtain ⟨a, c, trail', heq, hQ⟩ := h offset trail
  exact ⟨a, c, trail', by simp only [Parser.orElse, heq], hQ⟩

theorem Refuses.orElse_yields (h : p.Refuses cs) (hq : q.Yields cs Q) :
    (orElse p q).Yields cs Q := by
  intro offset trail
  obtain ⟨trail', heq⟩ := h offset trail
  obtain ⟨a, c, trail'', heq', hQ⟩ := hq offset trail'
  refine ⟨a, c, trail'', ?_, hQ⟩
  simp only [Parser.orElse, heq]
  exact heq'

theorem Refuses.orElse (h : p.Refuses cs) (hq : q.Refuses cs) : (orElse p q).Refuses cs := by
  intro offset trail
  obtain ⟨trail', heq⟩ := h offset trail
  obtain ⟨trail'', heq'⟩ := hq offset trail'
  refine ⟨trail'', ?_⟩
  simp only [Parser.orElse, heq]
  exact heq'

/-- An alternative is chosen when all others fail. -/
theorem yields_first {ps : List (Parser α)} (hp : p ∈ ps) (h : p.Yields cs Q)
    (hothers : ∀ q ∈ ps, q = p ∨ q.Refuses cs) : (first ps).Yields cs Q := by
  induction ps with
  | nil => exact absurd hp List.not_mem_nil
  | cons q ps ih =>
      rcases hothers q List.mem_cons_self with rfl | hq
      · exact h.orElse _
      · refine hq.orElse_yields ?_
        rcases List.mem_cons.mp hp with rfl | hp
        · exact absurd hq (h.not_refuses)
        · exact ih hp fun q hq => hothers q (List.mem_cons_of_mem _ hq)

theorem refuses_first {ps : List (Parser α)} (h : ∀ p ∈ ps, p.Refuses cs) :
    (first ps).Refuses cs := by
  induction ps with
  | nil => exact refuses_fail
  | cons p ps ih =>
      exact (h p List.mem_cons_self).orElse (ih fun p hp => h p (List.mem_cons_of_mem _ hp))

theorem Yields.optional (h : p.Yields cs Q) :
    (optional p).Yields cs fun o rest => ∃ a, o = some a ∧ Q a rest := by
  intro offset trail
  obtain ⟨a, c, trail', heq, hQ⟩ := h offset trail
  exact ⟨some a, c, trail', by simp only [Parser.optional, heq], a, rfl, hQ⟩

theorem Refuses.optional (h : p.Refuses cs) :
    (optional p).Yields cs fun o rest => o = none ∧ rest = cs := by
  intro offset trail
  obtain ⟨trail', heq⟩ := h offset trail
  exact ⟨none, ⟨cs, offset⟩, trail', by simp only [Parser.optional, heq], rfl, rfl⟩

/-! ## Lexemes -/

theorem yields_lexeme {scan : Text.Scanner} {l rest : List Char} (h : scan cs = some (l, rest)) :
    (lexeme scan).Yields cs fun i r => i.name = String.ofList l ∧ r = rest := by
  intro offset trail
  let stop := offset + byteLength l
  exact ⟨⟨String.ofList l, ⟨offset, stop⟩⟩, ⟨rest, stop⟩, trail, by simp only [lexeme, h, stop],
    rfl, rfl⟩

theorem refuses_lexeme {scan : Text.Scanner} (h : scan cs = none) : (lexeme scan).Refuses cs :=
  fun _ trail => ⟨trail, by simp only [lexeme, h]⟩

theorem yields_exactly (text : String) (rest : List Char) :
    (exactly text).Yields (text.toList ++ rest) fun _ r => r = rest := by
  have hscan : (Text.after? text.toList (text.toList ++ rest)).map
      (fun rest => (text.toList, rest)) = some (text.toList, rest) := by
    rw [after?_eq_some_iff.mpr rfl]
    rfl
  exact (yields_lexeme hscan).bind fun _ r hr => yields_pure hr.2

theorem refuses_exactly {text : String} (h : Text.after? text.toList cs = none) :
    (exactly text).Refuses cs := by
  have hlexeme : (lexeme fun cs => (Text.after? text.toList cs).map
      fun rest => (text.toList, rest)).Refuses cs := refuses_lexeme (by rw [h]; rfl)
  exact hlexeme.bind _

theorem refuses_exactly_of_head {text : String} {c : Char} {l : List Char}
    (htext : text.toList = c :: l) (h : cs.head? ≠ some c) : (exactly text).Refuses cs := by
  refine refuses_exactly ?_
  rw [htext]
  cases cs with
  | nil => rfl
  | cons d cs =>
      rw [Text.after?, if_neg]
      rintro rfl
      exact h rfl

theorem yields_notNext {c : Char} (h : cs.head? ≠ some c) :
    (notNext c).Yields cs fun _ rest => rest = cs :=
  fun offset trail => ⟨(), ⟨cs, offset⟩, trail, by simp only [notNext, if_neg h], rfl⟩

theorem refuses_notNext (c : Char) (cs : List Char) : (notNext c).Refuses (c :: cs) :=
  fun _ trail => ⟨trail, by simp [notNext]⟩

theorem yields_atEnd : atEnd.Yields [] fun _ _ => True :=
  fun offset trail => ⟨(), ⟨[], offset⟩, trail, rfl, trivial⟩

/-! ## Gaps -/

theorem yields_gap (cs : List Char) : gap.Yields cs fun _ rest => rest = afterGap cs :=
  fun _ trail => ⟨(), _, trail, rfl, skip_rest_eq _ _ _ _⟩

theorem Yields.afterGap {g : Unit → Parser α} (h : (g ()).Yields (afterGap cs) Q) :
    (gap >>= g).Yields cs Q :=
  (yields_gap cs).bind fun _ _ hrest => hrest ▸ h

theorem Refuses.afterGap {g : Unit → Parser α} (h : (g ()).Refuses (afterGap cs)) :
    (gap >>= g).Refuses cs :=
  (yields_gap cs).bind_refuses fun _ _ hrest => hrest ▸ h

/-! ## Repetition -/

/-- What it takes to read items that are written one after another, each after a separator: an item
is read up to the gap behind it, provided that what follows is of a certain form; and the further
items are of that form. -/
structure ReadsItems {ι : Type} (p : Parser α) (separator : List Char) (text : ι → List Char)
    (Rel : ι → α → Prop) (Follows : List Char → Prop) (items : List ι) : Prop where
  gap : ∀ c ∈ separator, isGap c = true
  solid : ∀ i ∈ items, (text i).head?.any isSolid = true
  follows : ∀ i ∈ items, ∀ rest, Follows (separator ++ text i ++ rest)
  reads : ∀ i ∈ items, ∀ rest, Follows rest →
    p.Yields (text i ++ rest) fun a r => Rel i a ∧ Grammar.afterGap r = Grammar.afterGap rest

namespace ReadsItems

variable {ι : Type} {separator : List Char} {text : ι → List Char} {Rel : ι → α → Prop}
  {Follows : List Char → Prop} {i : ι} {items : List ι} {stop : List Char}

theorem tail (h : ReadsItems p separator text Rel Follows (i :: items)) :
    ReadsItems p separator text Rel Follows items where
  gap := h.gap
  solid i hi := h.solid i (List.mem_cons_of_mem _ hi)
  follows i hi := h.follows i (List.mem_cons_of_mem _ hi)
  reads i hi := h.reads i (List.mem_cons_of_mem _ hi)

theorem follows_items (h : ReadsItems p separator text Rel Follows items) (hstop : Follows stop) :
    Follows (items.flatMap (fun i => separator ++ text i) ++ stop) := by
  cases items with
  | nil => exact hstop
  | cons i items =>
      rw [List.flatMap_cons, List.append_assoc]
      exact h.follows i List.mem_cons_self _

theorem afterGap_item (h : ReadsItems p separator text Rel Follows (i :: items))
    (rest : List Char) : Grammar.afterGap (separator ++ text i ++ rest) = text i ++ rest := by
  rw [List.append_assoc, afterGap_append_of_isGap h.gap]
  exact afterGap_append_of_isSolid (h.solid i List.mem_cons_self)

/-- Every item is longer than nothing, so the bound on their number is not met. -/
theorem further (h : ReadsItems p separator text Rel Follows items) (hstop : Follows stop)
    (hrefuse : p.Refuses (Grammar.afterGap stop)) {bound : Nat} {cs : List Char}
    (hcs : Grammar.afterGap cs =
      Grammar.afterGap (items.flatMap (fun i => separator ++ text i) ++ stop))
    (hbound : (Grammar.afterGap cs).length < bound) (offset : Nat) (trail : Trail) :
    ∃ as c trail', Parser.further p bound ⟨cs, offset⟩ trail = ((as, c), trail') ∧
      List.Forall₂ Rel items as ∧ Grammar.afterGap c.rest = Grammar.afterGap stop := by
  induction items generalizing bound cs offset trail with
  | nil =>
      obtain ⟨bound, rfl⟩ : ∃ n, bound = n + 1 := ⟨bound - 1, by omega⟩
      rw [List.flatMap_nil, List.nil_append] at hcs
      have hgap : (Parser.gap >>= fun _ => p).Refuses cs := Refuses.afterGap (by rwa [hcs])
      obtain ⟨trail', heq⟩ := hgap offset trail
      exact ⟨[], ⟨cs, offset⟩, trail', by simp only [Parser.further, heq], .nil, hcs⟩
  | cons i items ih =>
      obtain ⟨bound, rfl⟩ : ∃ n, bound = n + 1 := ⟨bound - 1, by omega⟩
      rw [List.flatMap_cons, List.append_assoc, h.afterGap_item] at hcs
      have hgap := Yields.afterGap (g := fun _ => p)
        (hcs ▸ h.reads i List.mem_cons_self _ (h.tail.follows_items hstop))
      obtain ⟨a, c, trail', heq, hrel, hrest⟩ := hgap offset trail
      have hshorter : (Grammar.afterGap c.rest).length < bound := by
        have hle := length_afterGap_le (items.flatMap (fun i => separator ++ text i) ++ stop)
        have hsolid := h.solid i List.mem_cons_self
        have hpos : 0 < (text i).length := by
          cases hi : text i with
          | nil => simp [hi] at hsolid
          | cons => simp
        rw [hcs, List.length_append] at hbound
        rw [hrest]
        omega
      obtain ⟨as, c', trail'', heq', hrels, hend⟩ := ih h.tail hrest hshorter c.offset trail'
      refine ⟨a :: as, c', trail'', ?_, .cons hrel hrels, hend⟩
      simp only [Parser.further, heq]
      rw [heq']

/-- Behind a gap, all items are read in order, up to a text that starts with no item. -/
theorem many (h : ReadsItems p separator text Rel Follows items) (hstop : Follows stop)
    (hrefuse : p.Refuses (Grammar.afterGap stop)) :
    (Parser.many p).Yields
      (Grammar.afterGap (items.flatMap (fun i => separator ++ text i) ++ stop))
      fun as rest => List.Forall₂ Rel items as ∧
        Grammar.afterGap rest = Grammar.afterGap stop := by
  intro offset trail
  cases items with
  | nil =>
      obtain ⟨trail', heq⟩ := hrefuse offset trail
      refine ⟨[], ⟨Grammar.afterGap stop, offset⟩, trail', ?_, .nil, afterGap_afterGap _⟩
      simp only [List.flatMap_nil, List.nil_append, Parser.many, heq]
  | cons i items =>
      rw [List.flatMap_cons, List.append_assoc, h.afterGap_item]
      obtain ⟨a, c, trail', heq, hrel, hrest⟩ :=
        h.reads i List.mem_cons_self _ (h.tail.follows_items hstop) offset trail
      have hbound : (Grammar.afterGap c.rest).length < c.rest.length + 1 :=
        Nat.lt_succ_of_le (length_afterGap_le _)
      obtain ⟨as, c', trail'', heq', hrels, hend⟩ :=
        h.tail.further hstop hrefuse hrest hbound c.offset trail'
      refine ⟨a :: as, c', trail'', ?_, .cons hrel hrels, hend⟩
      simp only [Parser.many, heq]
      rw [heq']

end ReadsItems

end Parser

end SchemaMigration.Grammar
