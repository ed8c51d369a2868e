import SchemaMigration.Proofs.Schema.Grammar.Comment.Cover
import SchemaMigration.Proofs.Schema.Grammar.Comment.Rules
import SchemaMigration.Proofs.Schema.Meaning

/-! # Comments are blanks

What a comment says makes no difference to a document, nor does it whether there is a comment or as
many blanks as it has bytes.
-/

namespace SchemaMigration.Document

open Grammar (Exchange Outside)
open Grammar.Parser (isLineEnd)
open Text (byteLength)

variable {E : Exchange} {text : String} {before body after : List Char} {document : Document}

/-- In an accepted text the cuts into strings, comments, attributes and other characters lead to its end:
whatever is opened is closed. -/
theorem outside_nil_of_ofText (h : ofText text = .ok document) : Outside [] text.toList := by
  obtain ⟨blocks, c, houtline, -⟩ := ofText_eq_ok h
  exact Grammar.outside_nil_of_outline houtline

theorem ofText_eq_ok_iff : ofText text = .ok document ↔
    ∃ blocks, (Grammar.outline (.start text.toList) {}).1.map Prod.fst = some blocks ∧
      ofOutline blocks = .ok document := by
  unfold ofText ofChars
  generalize Grammar.outline (.start text.toList) {} = result
  rcases result with ⟨_ | ⟨blocks, c⟩, trail⟩
  · exact ⟨nofun, fun ⟨_, hnone, _⟩ => nomatch hnone⟩
  · dsimp only
    cases hdocument : ofOutline blocks with
    | ok d => simp [hdocument]
    | error => simp [hdocument]

/-- Texts that differ by an exchange are accepted both or refused both, with one document. -/
theorem ofText_old_eq_ok_iff (hplace : Outside E.old (before ++ E.old)) :
    ofText (String.ofList (before ++ E.old)) = .ok document ↔
      ofText (String.ofList (before ++ E.new)) = .ok document := by
  have htwin : E.Twin (.start (before ++ E.old)) (.start (before ++ E.new)) := .before hplace
  have hvalue := Exchange.mirrors_outline.value_eq htwin (Nat.lt_succ_self _) (Nat.lt_succ_self _) {} {}
  rw [ofText_eq_ok_iff, ofText_eq_ok_iff, String.toList_ofList, String.toList_ofList, hvalue]

/-- A comment outside of strings and of the arguments of attributes, from its slashes to the end of its
line. The text is as good with a space for each of its bytes, or with any other comment of its length. -/
theorem ofText_of_comment (h : ofText text = .ok document)
    (htext : text.toList = before ++ '/' :: '/' :: (body ++ after))
    (hplace : Outside ('/' :: '/' :: (body ++ after)) text.toList)
    (hbody : ∀ c ∈ body, isLineEnd c = false) (hafter : ∀ c ∈ after.head?, isLineEnd c = true) :
    ofText (String.ofList (before ++ (List.replicate (byteLength ('/' :: '/' :: body)) ' ' ++ after))) =
        .ok document ∧
      ∀ body', (∀ c ∈ body', isLineEnd c = false) → byteLength body' = byteLength body →
        ofText (String.ofList (before ++ '/' :: '/' :: (body' ++ after))) = .ok document := by
  rw [htext] at hplace
  rw [← String.ofList_toList (s := text), htext] at h
  refine ⟨?_, fun body' hbody' hlength => ?_⟩
  · rw [Grammar.byteLength_slashes]
    exact (ofText_old_eq_ok_iff (E := .ofSpaces hbody hafter) hplace).mp h
  · exact (ofText_old_eq_ok_iff (E := .ofComment hbody hbody' hafter hlength) hplace).mp h

/-- A letter of two bytes gives way to two spaces, or to a quote and a mark that would be read if they
stood outside of a comment. -/
theorem ofText_of_comment_of_enum :
    ∃ document, ofText "enum E \x7b //é\n A \x7d" = .ok document ∧
      document.enums = [⟨⟨"E", ⟨5, 6⟩⟩, [⟨⟨"A", ⟨15, 16⟩⟩, [], ⟨15, 17⟩⟩], [], ⟨0, 18⟩⟩] ∧
      ofText "enum E \x7b     \n A \x7d" = .ok document ∧
      ofText "enum E \x7b //\"@\n A \x7d" = .ok document := by
  have hread : (ofText "enum E \x7b //é\n A \x7d").toOption.map enums =
      some [⟨⟨"E", ⟨5, 6⟩⟩, [⟨⟨"A", ⟨15, 16⟩⟩, [], ⟨15, 17⟩⟩], [], ⟨0, 18⟩⟩] := by
    decide +kernel
  obtain ⟨document, h, henums⟩ := toOption_map_eq_some_iff.mp hread
  have htext : "enum E \x7b //é\n A \x7d".toList =
      "enum E \x7b ".toList ++ '/' :: '/' :: (['é'] ++ "\n A \x7d".toList) := by decide
  have hplace : Outside ('/' :: '/' :: (['é'] ++ "\n A \x7d".toList))
      "enum E \x7b //é\n A \x7d".toList :=
    htext ▸ Grammar.outside_plain (Grammar.isPlain_of_all (by decide)) _
  have hspaces : String.ofList ("enum E \x7b ".toList ++
      (List.replicate (byteLength ['/', '/', 'é']) ' ' ++ "\n A \x7d".toList)) =
      "enum E \x7b     \n A \x7d" := by decide
  have hcomment : String.ofList ("enum E \x7b ".toList ++
      '/' :: '/' :: (['"', '@'] ++ "\n A \x7d".toList)) = "enum E \x7b //\"@\n A \x7d" := by decide
  have hend : ∀ c ∈ "\n A \x7d".toList.head?, isLineEnd c = true := by
    rintro c ⟨⟩
    rfl
  have hboth := ofText_of_comment h htext hplace (List.forall_mem_singleton.mpr rfl) hend
  rw [hspaces] at hboth
  refine ⟨document, h, henums, hboth.1, ?_⟩
  rw [← hcomment]
  exact hboth.2 ['"', '@'] (by simp [isLineEnd]) (by decide)

end SchemaMigration.Document
