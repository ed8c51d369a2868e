import SchemaMigration.Proofs.Schema.ArgumentText.Constituent
import SchemaMigration.Proofs.Schema.Grammar.Extension.Judgement
import SchemaMigration.Proofs.Schema.Grammar.Recognition
import SchemaMigration.Proofs.Schema.Grammar.Setting

/-! # Lexemes in a longer text

A lexeme is recognised in a longer text as it is in the text itself, when something is left that ends
it: any character does for a word, and for a number or a dotted name any but a point.
-/

namespace SchemaMigration.Grammar

open SchemaMigration.Grammar.Parser
open ArgumentText (rawArgument_append rawArgument_eq_some)
open Text (isWordStart)

variable {cs rest ext : List Char}

theorem head?_any_append {p : Char → Bool} (h : rest ≠ []) (ext : List Char) :
    (rest ++ ext).head?.any p = rest.head?.any p := by
  rw [List.head?_append_of_ne_nil _ h]

theorem keeps_word : Keeps Text.word (· ≠ []) := by
  intro cs l rest ext h hrest
  obtain ⟨hword, rfl, hhead⟩ := word_eq_some h
  rw [List.append_assoc]
  exact word_append hword (by rwa [head?_any_append hrest])

theorem keeps_wholeWord (text : String) : Keeps (Lexeme.wholeWord text) (· ≠ []) := by
  intro cs l rest ext h hrest
  obtain ⟨rfl, rfl, hhead⟩ := wholeWord_eq_some h
  rw [List.append_assoc]
  exact wholeWord_append (by rwa [head?_any_append hrest])

theorem keeps_boolean : Keeps Lexeme.boolean (· ≠ []) := by
  intro cs l rest ext h hrest
  obtain ⟨value, hvalue⟩ := boolean_eq_some h
  obtain ⟨rfl, rfl, hhead⟩ := wholeWord_eq_some hvalue
  rw [List.append_assoc]
  exact boolean_append value (by rwa [head?_any_append hrest])

theorem keeps_number : Keeps Lexeme.number fun rest => rest ≠ [] ∧ rest.head? ≠ some '.' := by
  intro cs l rest ext h ⟨hrest, hpoint⟩
  obtain ⟨hnumeral, rfl, hhead⟩ := number_eq_some h
  have hpoint' : (rest ++ ext).head? ≠ some '.' := by
    rwa [List.head?_append_of_ne_nil _ hrest]
  rw [← head?_any_append hrest ext] at hhead
  have hnumber := number_append hnumeral hhead hpoint'
  rwa [String.toList_ofList, ← List.append_assoc] at hnumber

theorem keeps_attributeName :
    Keeps Lexeme.attributeName fun rest => rest ≠ [] ∧ rest.head? ≠ some '.' := by
  intro cs l rest ext h ⟨hrest, hpoint⟩
  obtain ⟨hname, rfl, hhead⟩ := attributeName_eq_some h
  have hpoint' : (rest ++ ext).head? ≠ some '.' := by
    rwa [List.head?_append_of_ne_nil _ hrest]
  rw [← head?_any_append hrest ext] at hhead
  have happend := attributeName_append hname hhead hpoint'
  rwa [String.toList_ofList, ← List.append_assoc] at happend

theorem keeps_rawArgument : Keeps Lexeme.rawArgument fun rest => rest.head? = some ')' := by
  intro cs l rest ext h hrest
  obtain ⟨hbalanced, rfl⟩ := rawArgument_eq_some h
  obtain ⟨tail, rfl⟩ := List.head?_eq_some_iff.mp hrest
  rw [List.append_assoc]
  refine rawArgument_append hbalanced ?_
  intro ch hch
  cases hch
  exact .inl rfl

/-- The inside of a string that ends at a quote is read up to the same quote. -/
theorem keeps_stringInner :
    Keeps (fun cs => some (Lexeme.stringInner cs)) fun rest => rest.head? = some '"' := by
  intro cs l rest ext h hrest
  obtain ⟨tail, rfl⟩ := List.head?_eq_some_iff.mp hrest
  have hinner := Option.some.inj h
  clear h hrest
  refine congrArg some ?_
  fun_induction Lexeme.stringInner cs generalizing l with
  | case1 c cs inner rest heq ih =>
      cases hinner
      rw [List.cons_append, List.cons_append, Lexeme.stringInner, ih inner heq]
  | case2 c cs hescape hends =>
      cases hinner
      rfl
  | case3 c cs hescape hends inner rest heq ih =>
      cases hinner
      rw [List.cons_append, Lexeme.stringInner, if_neg hends, ih inner heq]
      rintro d ds rfl
      exact absurd rfl hends
  | case4 => cases hinner

/-! ## Names and marks -/

section Marks

variable {ext : List Char} {k : Nat} {c d : Cursor}

theorem starts_of_identifier {i : Ident} (h : identifier.Reads c i d) :
    ∃ ch rest, c.rest = ch :: rest ∧ isWordStart ch = true := by
  obtain ⟨l, hscan, -, -⟩ := h.of_symbol.of_lexeme
  obtain ⟨hword, hrest, -⟩ := word_eq_some hscan
  obtain ⟨ch, w, rfl, hch, -⟩ := isWord_iff.mp hword
  exact ⟨ch, w ++ d.rest, hrest, hch⟩

theorem startsSolid_of_isWordStart {cs rest : List Char} {ch : Char} (h : cs = ch :: rest)
    (hch : isWordStart ch = true) : StartsSolid cs := by
  rw [h]
  exact isSolid_of_isWordChar (isWordChar_of_isWordStart hch)

theorem carries_identifier (ext : List Char) (k : Nat) :
    Carries ext k identifier identifier (Ident.shift k) StartsSolid := by
  intro c i d h hd
  exact (h.of_symbol.lexeme_extended keeps_word (ne_nil_of_afterGap hd)).symbol _

theorem rest_of_mark {text : String} {u : Unit} (h : (gapThen (exactly text)).Reads c u d) :
    afterGap c.rest = text.toList ++ d.rest := by
  rw [← c.rest_pastGap]
  exact (Reads.of_afterGap h).of_exactly.rest

/-- A mark that is no gap is read behind the same gap. -/
theorem mark_extended {text : String} {u : Unit} (h : (gapThen (exactly text)).Reads c u d)
    (htext : ∃ ch l, text.toList = ch :: l ∧ isSolid ch = true) :
    (gapThen (exactly text)).Gives (c.extended ext k) u (d.extended ext k) := by
  obtain ⟨ch, l, htext, hch⟩ := htext
  refine .afterGap_extended ?_ (Reads.of_afterGap h).exactly_extended
  rw [c.rest_pastGap, rest_of_mark h, htext]
  exact hch

end Marks

end SchemaMigration.Grammar
