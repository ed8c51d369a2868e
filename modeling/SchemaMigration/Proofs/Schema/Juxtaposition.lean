import SchemaMigration.Proofs.Schema.Positions
import SchemaMigration.Proofs.Schema.Shifted

/-! # Texts one behind the other

Two accepted texts with a newline between them make up an accepted text. Nothing in the first one is
read differently because of what follows: a block ends with its brace, and what stands behind the last
one is blanks and comments, of which a comment that the text ends in goes on to the newline only. The
second text is read behind it as it is read alone, with its ranges moved on.
-/

namespace SchemaMigration

open Grammar
open SchemaMigration.Grammar.Parser
open Text (byteLength byteLength_append)

namespace Grammar

variable {c d e : Cursor} {text : List Char}

/-- A gap up to the end of a text goes on behind a newline as a gap that starts there. -/
theorem skip_newline (inComment : Bool) (offset : Nat) (cs more : List Char)
    (h : (skip inComment offset cs).rest = []) :
    skip inComment offset (cs ++ '\n' :: more) = skip false (offset + byteLength cs + 1) more := by
  fun_induction skip inComment offset cs with
  | case1 offset c cs ih =>
      rw [List.cons_append, skip, ih h, byteLength, Nat.add_assoc offset]
  | case2 offset cs ih =>
      have hslash : '/'.utf8Size = 1 := rfl
      have hoffset : offset + 2 + byteLength cs = offset + byteLength ('/' :: '/' :: cs) := by
        rw [byteLength, byteLength, hslash]
        omega
      rw [List.cons_append, List.cons_append, skip, ih h, hoffset]
  | case3 offset c cs hslash hgap ih =>
      rw [List.cons_append, skip, if_pos hgap, ih h, byteLength, Nat.add_assoc offset]
      rintro rest rfl
      exact absurd hgap (by decide)
  | case4 => cases h
  | case5 inComment offset =>
      cases inComment <;> rfl

/-- Blocks are read behind gaps in a longer text as they are in the text itself. -/
theorem givesItems_anyBlock (ext : List Char) (k : Nat) {blocks : List Block}
    (h : ReadsItemsBehindGaps anyBlock c blocks d) :
    GivesItemsBehindGaps anyBlock (c.extended ext k) (blocks.map (Block.shift k))
      (d.extended ext k) := by
  induction h with
  | nil => exact .nil
  | @cons c e d b blocks hitem _ ih =>
      refine .cons ?_ ih
      rw [pastGap_extended (starts_anyBlock hitem)]
      exact carries_anyBlock ext k _ b e hitem trivial

/-- Things that are not empty are not more than the characters they take. -/
theorem Parser.Places.length_le {α : Type} {p : Parser α} {span : α → Span} {Q : α → Prop}
    (hp : p.Places text span Q) {as : List α} (h : ReadsItemsBehindGaps p c as d)
    (hc : c.IsIn text) : as.length ≤ c.rest.length := by
  induction h with
  | nil => exact Nat.zero_le _
  | @cons c e d a as hitem _ ih =>
      have hin := hc.reaches c.reaches_pastGap
      obtain ⟨⟨part, hpart⟩, -, hlt, -⟩ := hp _ a e hitem hin
      have hne : part ≠ [] := by
        rintro rfl
        exact absurd hpart.offset (Nat.ne_of_gt hlt)
      have hlength := List.length_pos_iff.mpr hne
      have hrest := ih (hin.reaches hpart.reaches)
      have hgap := length_afterGap_le c.rest
      rw [← Cursor.rest_pastGap, hpart.rest, List.length_append] at hgap
      rw [List.length_cons]
      omega

/-- What stands behind the last block of a text goes on, behind a newline, as what another text starts
with. -/
theorem pastGap_newline (hc : c.IsIn text) (hend : c.pastGap.rest = []) (more : List Char) :
    (c.extended ('\n' :: more) 0).pastGap =
      ((Cursor.start more).extended [] (byteLength text + 1)).pastGap := by
  obtain ⟨before, htext, hoffset⟩ := hc
  have hlength : c.offset + byteLength c.rest = byteLength text := by
    rw [htext, byteLength_append, hoffset]
  rw [Cursor.pastGap, Cursor.extended, Nat.add_zero, skip_newline _ _ _ _ hend, hlength,
    Cursor.pastGap, Cursor.extended, Cursor.start, List.append_nil, Nat.zero_add]

/-- Blocks behind gaps that take up a text are its outline. -/
theorem gives_outline {blocks : List Block}
    (h : GivesItemsBehindGaps anyBlock (.start text) blocks d) (hend : d.pastGap.rest = []) :
    ∃ e, outline.Gives (.start text) blocks e := by
  have hrefuses : anyBlock.Refuses d.pastGap.rest := hend ▸ refuses_anyBlock_nil
  have hmany : ∃ e, (many anyBlock).Gives (Cursor.start text).pastGap blocks e ∧
      e.pastGap = d.pastGap := by
    cases h with
    | nil => exact ⟨_, hrefuses.many_gives, Cursor.pastGap_pastGap _⟩
    | @cons _ e _ b blocks hitem hitems =>
        refine ⟨d, hitem.many hitems hrefuses ?_, rfl⟩
        have hstart := (Cursor.isIn_start text).reaches (Cursor.start text).reaches_pastGap
        have hin := hstart.reaches (places_anyBlock text _ b e hitem.reads hstart).1
        have hlength := (places_anyBlock text).length_le hitems.reads hin
        omega
  obtain ⟨e, hblocks, hpast⟩ := hmany
  have hlast : e.pastGap.rest = [] := hpast ▸ hend
  refine ⟨e.pastGap, Gives.symbol (Gives.bind (.afterGap hblocks) ?_) _⟩
  exact Gives.bind (.afterGap ((gives_atEnd hlast).symbol _)) (gives_pure _ _)

/-- The outline of two texts with a newline between them is both outlines, the second one moved on by
the first text and the newline. -/
theorem outline_newline {a b : List Char} {blocks more : List Block}
    (ha : outline.Reads (.start a) blocks c) (hb : outline.Reads (.start b) more d) :
    ∃ e, outline.Gives (.start (a ++ '\n' :: b))
      (blocks ++ more.map (Block.shift (byteLength a + 1))) e := by
  obtain ⟨c', hitems, hend⟩ := ha.of_outline
  obtain ⟨d', hitems', hend'⟩ := hb.of_outline
  have hstart := Cursor.isIn_start a
  have hin := hstart.reaches ((places_anyBlock a).behindGaps hitems hstart).1
  have hfirst := givesItems_anyBlock ('\n' :: b) 0 hitems
  have hsecond := givesItems_anyBlock [] (byteLength a + 1) hitems'
  rw [Block.shift_zero, List.map_id] at hfirst
  obtain ⟨e, hall, hpast⟩ := hfirst.append hsecond (pastGap_newline hin hend b)
  refine gives_outline hall ?_
  rw [Cursor.rest_pastGap] at hend'
  rw [hpast, Cursor.rest_pastGap, Cursor.extended, List.append_nil, hend']

end Grammar

namespace Document

/-- Two accepted texts with a newline between them are accepted. Their document is the declarations of
the first, and then those of the second with all ranges moved on by the bytes of the first text and
the newline. -/
theorem ofText_append_newline {a b : String} {d d' : Document} (ha : ofText a = .ok d)
    (hb : ofText b = .ok d') :
    ofText (a ++ "\n" ++ b) =
      .ok ⟨d.declarations ++ d'.declarations.map (Declaration.shift (byteLength a.toList + 1))⟩ := by
  obtain ⟨blocks, c, houtline, hdeclarations⟩ := ofText_eq_ok ha
  obtain ⟨more, c', houtline', hdeclarations'⟩ := ofText_eq_ok hb
  obtain ⟨e, hboth⟩ := outline_newline houtline houtline'
  have htext : (a ++ "\n" ++ b).toList = a.toList ++ '\n' :: b.toList := by simp
  rw [← htext] at hboth
  obtain ⟨trail, heq⟩ := hboth {}
  refine ofText_of_outline heq ?_
  have hmoved := mapM_map_eq_ok hdeclarations' fun _ _ =>
    Declaration.ofBlock_shift (k := byteLength a.toList + 1)
  rw [List.mapM_append, hdeclarations, hmoved]
  rfl

/-- A comment at the end of the first text stays a comment, and its bytes count. -/
theorem ofText_append_newline_comment :
    ∃ d d', ofText "enum A \x7b x \x7d // é" = .ok d ∧ ofText "enum B \x7b y \x7d" = .ok d' ∧
      d'.enums = [⟨⟨"B", ⟨5, 6⟩⟩, [⟨⟨"y", ⟨9, 10⟩⟩, [], ⟨9, 11⟩⟩], [], ⟨0, 12⟩⟩] ∧
      ofText ("enum A \x7b x \x7d // é" ++ "\n" ++ "enum B \x7b y \x7d") =
        .ok ⟨d.declarations ++ d'.declarations.map (Declaration.shift 19)⟩ := by
  have hfirst : (ofText "enum A \x7b x \x7d // é").toOption.map enums =
      some [⟨⟨"A", ⟨5, 6⟩⟩, [⟨⟨"x", ⟨9, 10⟩⟩, [], ⟨9, 11⟩⟩], [], ⟨0, 12⟩⟩] := by
    decide +kernel
  have hsecond : (ofText "enum B \x7b y \x7d").toOption.map enums =
      some [⟨⟨"B", ⟨5, 6⟩⟩, [⟨⟨"y", ⟨9, 10⟩⟩, [], ⟨9, 11⟩⟩], [], ⟨0, 12⟩⟩] := by
    decide +kernel
  obtain ⟨d, hd, -⟩ := toOption_map_eq_some_iff.mp hfirst
  obtain ⟨d', hd', henums⟩ := toOption_map_eq_some_iff.mp hsecond
  exact ⟨d, d', hd, hd', henums, ofText_append_newline hd hd'⟩

end Document

end SchemaMigration
