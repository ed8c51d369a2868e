import SchemaMigration.Proofs.Schema.Grammar.Comment.Mirror
import SchemaMigration.Proofs.Schema.Grammar.Extension.Judgement

/-! # Pieces of text read alike

A piece of text is read from its start to its end without a gap in between that the grammar would
skip. If it ends before any gap that stands behind it, it is read alike whatever that gap is.
-/

namespace SchemaMigration.Grammar

open SchemaMigration.Grammar.Parser
open Text (byteLength)

/-! ## Pieces -/

namespace Parser

variable {α σ : Type} {p : Parser α} {cs rest : List Char}

theorem gives_lexeme {scan : Text.Scanner} {l : List Char} (h : scan cs = some (l, rest))
    (offset : Nat) : (lexeme scan).Gives ⟨cs, offset⟩
      ⟨String.ofList l, ⟨offset, offset + byteLength l⟩⟩ ⟨rest, offset + byteLength l⟩ :=
  fun trail => ⟨trail, by simp only [lexeme, h]⟩

theorem gives_exactly {text : String} {l : List Char} (htext : text.toList = l) (rest : List Char)
    (offset : Nat) :
    (exactly text).Gives ⟨l ++ rest, offset⟩ () ⟨rest, offset + byteLength l⟩ := by
  subst htext
  refine Gives.bind (gives_lexeme ?_ offset) (gives_pure () _)
  rw [after?_eq_some_iff.mpr rfl, Option.map_some]

/-- A parser reads what a scanner finds in one piece. Its value may note where the piece starts and how
long it is. -/
structure ReadsPiece (p : Parser α) (piece : List Char → Option (σ × List Char))
    (value : Nat → σ → α) (size : σ → Nat) : Prop where
  refuses : ∀ cs, piece cs = none → p.Refuses cs
  gives : ∀ cs x rest offset, piece cs = some (x, rest) →
    p.Gives ⟨cs, offset⟩ (value offset x) ⟨rest, offset + size x⟩

theorem readsPiece_lexeme (scan : Text.Scanner) : (lexeme scan).ReadsPiece scan
    (fun offset l => ⟨String.ofList l, ⟨offset, offset + byteLength l⟩⟩) byteLength where
  refuses _ h := refuses_lexeme h
  gives _ _ _ offset h := gives_lexeme h offset

variable {piece : List Char → Option (σ × List Char)} {value : Nat → σ → α} {size : σ → Nat}

/-- A piece behind a fixed mark. -/
theorem ReadsPiece.behind (hp : p.ReadsPiece piece value size) {text : String} {mark : List Char}
    (htext : text.toList = mark) :
    ReadsPiece (do exactly text; p) (fun cs => (Text.after? mark cs).bind piece)
      (fun offset x => value (offset + byteLength mark) x) (fun x => byteLength mark + size x) where
  refuses cs h := by
    cases hafter : Text.after? mark cs with
    | none => exact (refuses_exactly (htext ▸ hafter)).bind _
    | some more =>
        rw [hafter] at h
        obtain rfl := after?_eq_some_iff.mp hafter
        subst htext
        refine (yields_exactly text more).bind_refuses fun _ rest hrest => ?_
        rw [hrest]
        exact hp.refuses more h
  gives cs x rest offset h := by
    obtain ⟨more, hafter, hpiece⟩ := Option.bind_eq_some_iff.mp h
    obtain rfl := after?_eq_some_iff.mp hafter
    rw [← Nat.add_assoc]
    exact (gives_exactly htext more offset).bind (hp.gives more x rest _ hpiece)

theorem ReadsPiece.symbol (hp : p.ReadsPiece piece value size) (s : Symbol) :
    (Parser.symbol s p).ReadsPiece piece value size where
  refuses cs h := (hp.refuses cs h).symbol s
  gives cs x rest offset h := (hp.gives cs x rest offset h).symbol s

theorem ReadsPiece.of_reads (hp : p.ReadsPiece piece value size) {c d : Cursor} {a : α}
    (h : p.Reads c a d) : ∃ x, piece c.rest = some (x, d.rest) := by
  obtain ⟨trail, trail', heq⟩ := h
  cases hpiece : piece c.rest with
  | none =>
      obtain ⟨_, hnone⟩ := hp.refuses c.rest hpiece c.offset trail
      cases heq.symm.trans hnone
  | some found =>
      obtain ⟨_, hsome⟩ := hp.gives c.rest found.1 found.2 c.offset hpiece trail
      cases heq.symm.trans hsome
      exact ⟨found.1, rfl⟩

end Parser

/-! ## Pieces side by side -/

/-- A piece is the same before the exchanged part when it ends before any gap. -/
theorem Exchange.mirrors_piece {E : Exchange} {k l i : Nat} {α σ : Type} {p : Parser α}
    {piece : List Char → Option (σ × List Char)} {value : Nat → σ → α} {size : σ → Nat}
    (hp : p.ReadsPiece piece value size)
    (hlength : ∀ cs s rest, piece cs = some (s, rest) → rest.length + i ≤ cs.length)
    (hbefore : ∀ front, Outside E.old (front ++ E.old) →
      (∀ gap, StartsGap gap → piece (front ++ gap) = none) ∨
        ∃ s rest, Outside E.old (rest ++ E.old) ∧
          ∀ gap, StartsGap gap → piece (front ++ gap) = some (s, rest ++ gap)) :
    E.Mirrors k l i p p := by
  rintro ⟨cs, offset⟩ ⟨cs', offset'⟩ trail trail' htwin - -
  -- The parser does in each text what the scanner says; only the rests of the texts differ.
  have hfailed : ∀ cs cs' offset offset', piece cs = none → piece cs' = none →
      Option.Rel (E.Match i ⟨cs, offset⟩ ⟨cs', offset'⟩) (p ⟨cs, offset⟩ trail).1
        (p ⟨cs', offset'⟩ trail').1 := by
    intro cs cs' offset offset' hold hnew
    obtain ⟨_, hold⟩ := hp.refuses cs hold offset trail
    obtain ⟨_, hnew⟩ := hp.refuses cs' hnew offset' trail'
    rw [hold, hnew]
    exact .none
  have hread : ∀ cs cs' rest rest' x offset, piece cs = some (x, rest) → piece cs' = some (x, rest') →
      (∀ offset, E.Twin ⟨rest, offset⟩ ⟨rest', offset⟩) →
      Option.Rel (E.Match i ⟨cs, offset⟩ ⟨cs', offset⟩) (p ⟨cs, offset⟩ trail).1
        (p ⟨cs', offset⟩ trail').1 := by
    intro cs cs' rest rest' x offset hold hnew hrest
    obtain ⟨_, hgives⟩ := hp.gives cs x rest offset hold trail
    obtain ⟨_, hgives'⟩ := hp.gives cs' x rest' offset hnew trail'
    rw [hgives, hgives']
    exact .some ⟨rfl, hrest _, hlength _ _ _ hold, hlength _ _ _ hnew⟩
  cases htwin with
  | same =>
      cases hpiece : piece cs with
      | none => exact hfailed _ _ _ _ hpiece hpiece
      | some x => exact hread _ _ _ _ _ _ hpiece hpiece fun _ => .same _
  | @before front _ h =>
      rcases hbefore front h with hnone | ⟨x, rest, hrest, hsome⟩
      · exact hfailed _ _ _ _ (hnone _ E.startsGap_old) (hnone _ E.startsGap_new)
      · exact hread _ _ _ _ x _ (hsome _ E.startsGap_old) (hsome _ E.startsGap_new) fun _ => .before hrest

end SchemaMigration.Grammar
