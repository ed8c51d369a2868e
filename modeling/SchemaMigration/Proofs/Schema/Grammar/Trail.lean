import SchemaMigration.Proofs.Schema.Positions

/-! # Trails lead to places of the text

A trail notes the furthest offset at which a symbol failed. Symbols are only entered where a parser
stands, and a parser that starts at a place of the text only ever stands at places of the text. So
through all alternatives and repetitions the trail leads to a place between two characters.
-/

namespace SchemaMigration.Grammar

open SchemaMigration.Grammar.Parser
open Text (byteLength)

variable {α β : Type} {text : List Char}

/-- The furthest offset of a trail is that of a place in a text. -/
def Trail.IsIn (text : List Char) (t : Trail) : Prop :=
  ∃ before after, text = before ++ after ∧ t.furthest = byteLength before

theorem Trail.isIn_empty (text : List Char) : ({} : Trail).IsIn text :=
  ⟨[], text, rfl, rfl⟩

/-- Blame is put on what is furthest already, or on the place where the symbol was entered. -/
theorem Trail.IsIn.blame {before after : Trail} {c : Cursor} (h : after.IsIn text)
    (hc : c.IsIn text) (s : Symbol) : (before.blame after s c.offset).IsIn text := by
  unfold Trail.blame
  split
  · exact h
  · split
    · exact h
    · split
      · obtain ⟨passed, htext, hoffset⟩ := hc
        exact ⟨passed, c.rest, htext, hoffset⟩
      · exact h

namespace Parser

variable {p q : Parser α} {f : α → Parser β}

/-- Started at a place of a text, with a trail that leads to one, the parser leaves such a trail, and
ends at a place of the text if it succeeds. -/
def StaysIn (text : List Char) (p : Parser α) : Prop :=
  ∀ c trail result trail', c.IsIn text → trail.IsIn text → p c trail = (result, trail') →
    trail'.IsIn text ∧ ∀ a d, result = some (a, d) → d.IsIn text

theorem staysIn_pure (a : α) : (pure a : Parser α).StaysIn text := by
  intro c trail result trail' hc htrail h
  cases h
  refine ⟨htrail, fun b d hd => ?_⟩
  cases hd
  exact hc

theorem StaysIn.bind (hp : p.StaysIn text) (hf : ∀ a, (f a).StaysIn text) :
    (p >>= f).StaysIn text := by
  intro c trail result trail' hc htrail h
  simp only [Bind.bind] at h
  split at h
  next a d trail₁ hrun =>
      obtain ⟨htrail₁, hd⟩ := hp c trail _ trail₁ hc htrail hrun
      exact hf a d trail₁ result trail' (hd a d rfl) htrail₁ h
  next trail₁ hrun =>
      cases h
      exact ⟨(hp c trail _ _ hc htrail hrun).1, by simp⟩

theorem StaysIn.symbol (hp : p.StaysIn text) (s : Symbol) : (symbol s p).StaysIn text := by
  intro c trail result trail' hc htrail h
  simp only [Parser.symbol] at h
  split at h
  next r after hrun =>
      cases h
      exact hp c trail _ _ hc htrail hrun
  next after hrun =>
      cases h
      exact ⟨(hp c trail _ _ hc htrail hrun).1.blame hc s, by simp⟩

theorem staysIn_fail : (fail : Parser α).StaysIn text := by
  intro c trail result trail' hc htrail h
  cases h
  exact ⟨htrail, by simp⟩

theorem StaysIn.orElse (hp : p.StaysIn text) (hq : q.StaysIn text) : (orElse p q).StaysIn text := by
  intro c trail result trail' hc htrail h
  simp only [Parser.orElse] at h
  split at h
  next r after hrun =>
      cases h
      exact hp c trail _ _ hc htrail hrun
  next after hrun =>
      exact hq c after result trail' hc (hp c trail _ _ hc htrail hrun).1 h

theorem StaysIn.optional (hp : p.StaysIn text) : (optional p).StaysIn text := by
  intro c trail result trail' hc htrail h
  simp only [Parser.optional] at h
  split at h
  next a d after hrun =>
      cases h
      obtain ⟨hafter, hd⟩ := hp c trail _ _ hc htrail hrun
      refine ⟨hafter, fun b e he => ?_⟩
      cases he
      exact hd a d rfl
  next after hrun =>
      cases h
      refine ⟨(hp c trail _ _ hc htrail hrun).1, fun b e he => ?_⟩
      cases he
      exact hc

theorem StaysIn.located (hp : p.StaysIn text) : (located p).StaysIn text := by
  intro c trail result trail' hc htrail h
  simp only [Parser.located] at h
  split at h
  next a d after hrun =>
      cases h
      obtain ⟨hafter, hd⟩ := hp c trail _ _ hc htrail hrun
      refine ⟨hafter, fun b e he => ?_⟩
      cases he
      exact hd a d rfl
  next after hrun =>
      cases h
      exact ⟨(hp c trail _ _ hc htrail hrun).1, by simp⟩

/-- A parser that advances and never touches the trail stays in the text. -/
theorem Advances.staysIn (hp : p.Advances) (htouch : ∀ c trail, (p c trail).2 = trail) :
    p.StaysIn text := by
  intro c trail result trail' hc htrail h
  have hsame : trail' = trail := by rw [← htouch c trail, h]
  refine ⟨hsame ▸ htrail, fun a d hd => ?_⟩
  exact hc.reaches (hp c a d ⟨trail, trail', hd ▸ h⟩)

theorem staysIn_lexeme {scan : Text.Scanner} (hscan : Cuts scan) : (lexeme scan).StaysIn text := by
  refine (advances_lexeme hscan).staysIn fun c trail => ?_
  unfold lexeme
  cases scan c.rest <;> rfl

theorem staysIn_exactly (word : String) : (exactly word).StaysIn text := by
  refine (advances_exactly word).staysIn fun c trail => ?_
  simp only [exactly, lexeme, Bind.bind]
  cases Text.after? word.toList c.rest <;> rfl

theorem staysIn_gap : gap.StaysIn text :=
  advances_gap.staysIn fun _ _ => rfl

theorem staysIn_notNext (char : Char) : (notNext char).StaysIn text := by
  have hadvances : (notNext char).Advances := fun c _ _ h => h.of_notNext.1 ▸ .refl c
  refine hadvances.staysIn fun c trail => ?_
  unfold notNext
  split <;> rfl

theorem staysIn_atEnd : atEnd.StaysIn text := by
  have hadvances : atEnd.Advances := fun c _ _ h => h.of_atEnd.1 ▸ .refl c
  refine hadvances.staysIn fun c trail => ?_
  unfold atEnd
  split <;> rfl

theorem StaysIn.gapThen (hp : p.StaysIn text) : (gapThen p).StaysIn text :=
  staysIn_gap.bind fun _ => hp

theorem StaysIn.further (hp : p.StaysIn text) {bound : Nat} {c d : Cursor} {trail trail' : Trail}
    {as : List α} (hc : c.IsIn text) (htrail : trail.IsIn text)
    (h : further p bound c trail = ((as, d), trail')) : trail'.IsIn text ∧ d.IsIn text := by
  induction bound generalizing c trail as with
  | zero =>
      cases h
      exact ⟨htrail, hc⟩
  | succ bound ih =>
      simp only [Parser.further] at h
      split at h
      next a e after hrun =>
          cases h
          obtain ⟨hafter, he⟩ := hp.gapThen c trail _ _ hc htrail hrun
          exact ih (he a e rfl) hafter rfl
      next after hrun =>
          cases h
          exact ⟨(hp.gapThen _ trail _ _ hc htrail hrun).1, hc⟩

theorem StaysIn.many (hp : p.StaysIn text) : (many p).StaysIn text := by
  intro c trail result trail' hc htrail h
  simp only [Parser.many] at h
  split at h
  next a d after hrun =>
      cases h
      obtain ⟨hafter, hd⟩ := hp c trail _ _ hc htrail hrun
      obtain ⟨htrail', he⟩ := hp.further (hd a d rfl) hafter rfl
      refine ⟨htrail', fun b e heq => ?_⟩
      cases heq
      exact he
  next after hrun =>
      cases h
      refine ⟨(hp c trail _ _ hc htrail hrun).1, fun b e heq => ?_⟩
      cases heq
      exact hc

theorem staysIn_bounded {p : Nat → Parser α} (hp : ∀ n, (p n).StaysIn text) (bound : Cursor → Nat) :
    StaysIn text fun c trail => p (bound c) c trail :=
  fun c => hp (bound c) c

theorem composes_staysIn (text : List Char) : Composes (StaysIn text) where
  pure := staysIn_pure
  bind := StaysIn.bind
  symbol := StaysIn.symbol
  located := StaysIn.located
  fail := staysIn_fail
  orElse := StaysIn.orElse
  optional := StaysIn.optional
  many := StaysIn.many
  gap := staysIn_gap
  bounded := staysIn_bounded

end Parser

/-! ## The rules of the grammar -/

theorem staysIn_stringLiteral : stringLiteral.StaysIn text := by
  apply StaysIn.symbol
  refine (staysIn_exactly "\"").bind fun _ => ?_
  refine ((staysIn_lexeme cuts_stringInner).symbol _).bind fun _ => ?_
  exact (staysIn_exactly "\"").bind fun _ => staysIn_pure _

theorem holdsOfLexemes_staysIn (text : List Char) : HoldsOfLexemes (StaysIn text) where
  word := staysIn_lexeme cuts_word
  number := staysIn_lexeme cuts_number
  boolean := staysIn_lexeme cuts_boolean
  stringLiteral := staysIn_stringLiteral
  exactly mark _ := staysIn_exactly mark

theorem staysIn_attributeBody : attributeBody.StaysIn text := by
  refine ((staysIn_lexeme cuts_attributeName).symbol _).bind fun _ => ?_
  refine StaysIn.bind (StaysIn.optional (StaysIn.symbol ?_ _)) fun _ => staysIn_pure _
  refine (staysIn_exactly "(").bind fun _ => ?_
  refine ((staysIn_lexeme cuts_rawArgument).symbol _).bind fun _ => ?_
  exact (staysIn_exactly ")").bind fun _ => staysIn_pure _

theorem staysIn_fieldAttribute : fieldAttribute.StaysIn text := by
  refine StaysIn.bind (StaysIn.located (StaysIn.symbol ?_ _)) fun _ => staysIn_pure _
  exact (staysIn_exactly "@").bind fun _ => (staysIn_notNext '@').bind fun _ => staysIn_attributeBody

theorem staysIn_blockAttribute : blockAttribute.StaysIn text := by
  refine StaysIn.bind (StaysIn.located (StaysIn.symbol ?_ _)) fun _ => staysIn_pure _
  exact (staysIn_exactly "@@").bind fun _ => staysIn_attributeBody

theorem holdsOfParts_staysIn (text : List Char) : HoldsOfParts (StaysIn text) where
  identifier := (composes_staysIn text).identifier (holdsOfLexemes_staysIn text)
  fieldType := (composes_staysIn text).fieldType (holdsOfLexemes_staysIn text)
  assignment := (composes_staysIn text).assignment (holdsOfLexemes_staysIn text)
  fieldAttribute := staysIn_fieldAttribute
  blockAttribute := staysIn_blockAttribute

theorem staysIn_outline : outline.StaysIn text := by
  refine (composes_staysIn text).outline (fun kind => ?_) staysIn_atEnd
  exact (composes_staysIn text).block (holdsOfLexemes_staysIn text) (holdsOfParts_staysIn text) kind
    (staysIn_lexeme (cuts_keyword kind))

end SchemaMigration.Grammar
