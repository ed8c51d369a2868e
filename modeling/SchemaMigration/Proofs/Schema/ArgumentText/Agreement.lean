import SchemaMigration.Proofs.Schema.ArgumentText.Constituent
import SchemaMigration.Proofs.Schema.ArgumentText.Trimming

/-! # Agreement of the scans with the grammar

The scan for commas knows no constituents, only in which quotes it stands and how deep in brackets
of any kind. Over what the grammar reads both agree: the scan comes back to where it started, and it
cuts the text at the commas that are constituents themselves and at no others. In the same way the
test for quoted strings agrees with the grammar.
-/

namespace SchemaMigration.ArgumentText

open Constituent (rowText)
open Grammar (unescape)
open Grammar.Lexeme (rawArgument)
open Text (strip)

/-! ## The scan for commas -/

section Scan

variable {commas : Bool} {cs : List Char} {parts : List Constituent} {depth : Nat}

/-- The state in which the scan stands behind a text. -/
def ScanState.after (state : ScanState) (cs : List Char) : ScanState :=
  cs.foldl ScanState.next state

@[simp]
theorem ScanState.after_cons (state : ScanState) (c : Char) (cs : List Char) :
    state.after (c :: cs) = (state.next c).after cs :=
  rfl

@[simp]
theorem ScanState.after_append (state : ScanState) (cs ds : List Char) :
    state.after (cs ++ ds) = (state.after cs).after ds :=
  List.foldl_append

/-- Behind a text the scan goes on in the state in which the text has left it. -/
theorem exists_cut_append (state : ScanState) (cs : List Char) :
    ∃ front last, cut state cs = front ++ [last] ∧ ∀ more,
      cut state (cs ++ more) = front ++ (cut (state.after cs) more).modifyHead (last ++ ·) := by
  induction cs generalizing state with
  | nil => exact ⟨[], [], rfl, fun more => (congrFun List.modifyHead_id _).symm⟩
  | cons c cs ih =>
      -- A comma that is cut at does not change the state, and leaves an empty piece before it. Every
      -- other character joins the first piece, which may be the last one too.
      obtain ⟨front, last, hcut, happend⟩ := ih (state.next c)
      by_cases hc : c = ',' ∧ state = .code 0
      · obtain ⟨rfl, rfl⟩ := hc
        refine ⟨[] :: front, last, ?_, fun more => ?_⟩
        · rw [cut, if_pos ⟨rfl, rfl⟩]
          exact congrArg ([] :: ·) hcut
        · rw [List.cons_append, cut, if_pos ⟨rfl, rfl⟩]
          exact congrArg ([] :: ·) (happend more)
      · cases front with
        | nil =>
            refine ⟨[], c :: last, by rw [cut_cons hc, hcut]; rfl, fun more => ?_⟩
            rw [List.cons_append, cut_cons hc, happend, List.nil_append, List.modifyHead_modifyHead]
            rfl
        | cons piece front =>
            refine ⟨(c :: piece) :: front, last, by rw [cut_cons hc, hcut]; rfl, fun more => ?_⟩
            rw [List.cons_append, cut_cons hc, happend]
            rfl

/-- Where the scan is back outside quotes and brackets, a comma is cut at, and the scan of what
follows the comma begins anew. -/
theorem cut_append_comma (h : (ScanState.code 0).after cs = .code 0) (more : List Char) :
    cut (.code 0) (cs ++ ',' :: more) = cut (.code 0) cs ++ cut (.code 0) more := by
  obtain ⟨front, last, hcut, happend⟩ := exists_cut_append (.code 0) cs
  rw [happend, h, hcut, cut, if_pos ⟨rfl, rfl⟩, List.modifyHead_cons, List.append_nil,
    List.append_assoc]
  rfl

/-- The pieces with commas between them are the text. -/
theorem intercalate_cut (state : ScanState) (cs : List Char) :
    [','].intercalate (cut state cs) = cs := by
  induction cs generalizing state with
  | nil => rfl
  | cons c cs ih =>
      by_cases hc : c = ',' ∧ state = .code 0
      · rw [cut, if_pos hc, intercalate_comma_of_ne_nil [] (cut_ne_nil state cs), ih, hc.1]
        rfl
      · obtain ⟨piece, pieces, hcut⟩ := List.exists_cons_of_ne_nil (cut_ne_nil (state.next c) cs)
        have hcs := ih (state.next c)
        rw [cut_cons hc, hcut, List.modifyHead_cons]
        rw [hcut] at hcs
        exact (append_intercalate_comma [c] piece pieces).symm.trans (congrArg (c :: ·) hcs)

theorem ScanState.after_quoted {quote : Char} {inside : List Char}
    (hinside : isQuotable quote inside = true) :
    (quoted quote false depth).after inside = quoted quote false depth := by
  fun_induction isQuotable quote inside with
  | case1 c cs ih => exact ih hinside
  | case2 c cs hescape ih =>
      simp only [ne_eq, Bool.and_eq_true, decide_eq_true_eq] at hinside
      obtain ⟨⟨hbackslash, hother⟩, hcs⟩ := hinside
      rw [after_cons, next, if_neg hbackslash, if_neg hother]
      exact ih hcs
  | case3 => rfl

/-- A balanced text leaves the scan where it was. -/
theorem Balanced.after_eq (h : Balanced commas cs) :
    (ScanState.code depth).after cs = .code depth := by
  induction h generalizing depth with
  | nil => rfl
  | char hc _ _ ih => rw [ScanState.after_cons, ScanState.next_of_isBare hc, ih]
  | @quoted _ quote inside cs hquote hinside _ ih =>
      have hbackslash : quote ≠ '\\' := by rcases hquote with rfl | rfl <;> decide
      have hback : (ScanState.quoted quote false depth).next quote = .code depth := by
        rw [ScanState.next, if_neg hbackslash, if_pos rfl]
      rw [ScanState.after_cons, ScanState.next_quote hquote, ScanState.after_append,
        ScanState.after_quoted hinside, ScanState.after_cons, hback, ih]
  | group hclosing _ _ ihinside ih =>
      rw [ScanState.after_cons, ScanState.next_left hclosing, ScanState.after_append, ihinside,
        ScanState.after_cons, ScanState.next_right hclosing, ih]

/-- A row of constituents is cut at the commas among them. -/
theorem cut_rowText (h : ∀ p ∈ parts, Balanced p.isComma p.text) :
    cut (.code 0) (rowText parts) = (parts.splitOnP Constituent.isComma).map rowText := by
  induction parts with
  | nil => rfl
  | cons p parts ih =>
      obtain ⟨hp, hparts⟩ := List.forall_mem_cons.mp h
      rw [rowText, List.flatMap_cons, List.splitOnP_cons_eq_if_modifyHead, ← rowText]
      cases hcomma : p.isComma with
      | true =>
          obtain rfl := Constituent.isComma_eq_true hcomma
          rw [if_pos rfl, List.map_cons, ← ih hparts]
          rfl
      | false =>
          rw [hcomma] at hp
          rw [cut_append hp (absurd · Bool.false_ne_true), ih hparts, if_neg Bool.false_ne_true]
          cases parts.splitOnP Constituent.isComma with
          | nil => rfl
          | cons group groups => rfl

end Scan

/-! ## Quoted strings -/

section Quoted

variable {cs inside : List Char} {quote : Char}

theorem reads_quoted_iff :
    Reads cs [.quoted quote inside] [] ↔ (quote = '"' ∨ quote = '\'') ∧
      isQuotable quote inside = true ∧ cs = quote :: (inside ++ [quote]) := by
  constructor
  · intro h
    cases h with
    | quoted hquote hclose hinside hcs =>
        cases hcs
        rw [hinside, closeQuote_append_iff hquote] at hclose
        exact ⟨hquote, hclose, congrArg (quote :: ·) hinside⟩
  · rintro ⟨hquote, hinside, rfl⟩
    exact .quoted hquote ((closeQuote_append_iff hquote).mpr hinside) rfl .nil

/-- A text denotes a string exactly when the grammar reads all of it as one quoted string. -/
theorem unquote?_eq_some_iff {s : String} :
    unquote? cs = some s ↔ ∃ quote inside, Reads cs [.quoted quote inside] [] ∧
      s = String.ofList (unescape inside) := by
  simp only [unquote?, Option.map_eq_some_iff, inside?_eq_some_iff, reads_quoted_iff]
  constructor
  · rintro ⟨inside, ⟨quote, hquoted⟩, rfl⟩
    exact ⟨quote, inside, hquoted, rfl⟩
  · rintro ⟨quote, inside, hquoted, rfl⟩
    exact ⟨inside, ⟨quote, hquoted⟩, rfl⟩

end Quoted

/-! ## Agreement -/

/-- The scans of argument texts agree with the grammar. In what the grammar reads as a raw argument,
whatever follows it, the scan for commas ends outside quotes and brackets, so that a further comma
would be cut at; it cuts at the commas among the constituents, and what lies between them makes up
the text again and gives the pieces. A text is unquoted exactly when the grammar reads all of it as
one quoted string. -/
theorem scans_agree_with_grammar (cs : List Char) :
    (∀ text rest, rawArgument cs = some (text, rest) →
      ∃ parts groups, (∀ others left, Reads cs others left ↔ others = parts ∧ left = rest) ∧
        groups = (parts.splitOnP Constituent.isComma).map rowText ∧
        (ScanState.code 0).after text = .code 0 ∧
        (∀ more, cut (.code 0) (text ++ ',' :: more) = groups ++ cut (.code 0) more) ∧
        cut (.code 0) text = groups ∧ [','].intercalate groups = text ∧
        pieces text = (groups.map strip).filter fun piece => !piece.isEmpty) ∧
    ∀ s, unquote? cs = some s ↔ ∃ quote inside, Reads cs [.quoted quote inside] [] ∧
      s = String.ofList (unescape inside) := by
  refine ⟨fun text rest h => ?_, fun s => unquote?_eq_some_iff⟩
  obtain ⟨parts, hreads, rfl⟩ := rawArgument_eq_some_iff.mp h
  have hcut := cut_rowText hreads.balanced
  have hafter : (ScanState.code 0).after (rowText parts) = .code 0 :=
    (balanced_rowText hreads.balanced).after_eq
  refine ⟨parts, _, fun others left => ?_, rfl, hafter, fun more => ?_, hcut, ?_, ?_⟩
  · constructor
    · exact fun hothers => hothers.unique hreads
    · rintro ⟨rfl, rfl⟩
      exact hreads
  · rw [cut_append_comma hafter, hcut]
  · rw [← hcut, intercalate_cut]
  · rw [pieces, hcut]

/-- The commas in `f(b, "c)\"")` and in `'d",e'` belong to constituents, and are not cut at. -/
theorem scans_agree_with_grammar_of_row :
    let row := "a, f(b, \"c)\\\"\"), 'd\",e', [x, (y)],".toList
    rawArgument row = some (row, []) ∧
      (∃ parts, Reads row parts [] ∧ (parts.splitOnP Constituent.isComma).map rowText =
        ["a".toList, " f(b, \"c)\\\"\")".toList, " 'd\",e'".toList, " [x, (y)]".toList, []]) ∧
      ∃ quote inside, Reads "'d\",e'".toList [.quoted quote inside] [] ∧
        "d\",e" = String.ofList (unescape inside) := by
  intro row
  have hraw : rawArgument row = some (row, []) := by decide
  obtain ⟨parts, groups, hreads, rfl, -, -, hcut, -, -⟩ :=
    (scans_agree_with_grammar row).1 _ _ hraw
  refine ⟨hraw, ⟨parts, (hreads _ _).mpr ⟨rfl, rfl⟩, ?_⟩, ?_⟩
  · rw [← hcut]
    decide
  · exact ((scans_agree_with_grammar _).2 _).mp (by decide)

end SchemaMigration.ArgumentText
