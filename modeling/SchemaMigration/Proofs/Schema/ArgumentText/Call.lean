import SchemaMigration.Layout.Table
import SchemaMigration.Proofs.Schema.ArgumentText.Constituent
import SchemaMigration.Proofs.Schema.ArgumentText.Interpretation
import SchemaMigration.Proofs.Schema.ArgumentText.Spacing
import SchemaMigration.Proofs.Schema.Grammar.Recognition

/-! # Calls in default values

The argument of a default value is read as a call when it begins as one and ends with a closing
parenthesis. That this is the parenthesis which closes the first one is not asked. So the arguments of
a call are those between its parentheses when nothing stands behind it; and otherwise all of the text
up to its last character is taken for them.
-/

namespace SchemaMigration.ArgumentText

open Grammar (isSpace_of_isWordChar word_append word_eq_some)
open Grammar.Lexeme (rawArgument)
open Text (isSpace isWordChar strip)

variable {text body : List Char} {name : String}

/-- A text that begins with a name, blanks and an opening parenthesis, and ends with a closing one.
The body is what stands between the two. -/
def ReadsAsCall (text : List Char) (name : String) (body : List Char) : Prop :=
  ∃ gap, (∀ c ∈ gap, isSpace c = true) ∧ text = name.toList ++ (gap ++ '(' :: (body ++ [')']))

/-! ## Which texts are read as calls -/

theorem call?_eq_some_iff :
    call? text = some (name, body) ↔ IsIdentifier name ∧ ReadsAsCall text name body := by
  constructor
  · intro h
    obtain ⟨⟨w, rest⟩, hword, hrest⟩ := Option.bind_eq_some_iff.mp h
    obtain ⟨hw, rfl, -⟩ := word_eq_some hword
    dsimp only at hrest
    split at hrest
    next inner hopen =>
      split at hrest
      next hclose =>
        cases hrest
        refine ⟨by rwa [IsIdentifier, String.toList_ofList], rest.takeWhile isSpace,
          fun c hc => List.mem_takeWhile_imp hc, ?_⟩
        rw [String.toList_ofList, List.dropLast_append_getLast? _ hclose, ← hopen,
          List.takeWhile_append_dropWhile]
      next => cases hrest
    next => cases hrest
  · rintro ⟨hname, gap, hgap, rfl⟩
    have hhead : (gap ++ '(' :: (body ++ [')'])).head?.any isWordChar = false := by
      cases gap with
      | nil => rfl
      | cons c gap =>
          have hc := hgap c List.mem_cons_self
          apply Bool.eq_false_iff.mpr
          intro hword
          rw [isSpace_of_isWordChar hword] at hc
          cases hc
    have hopen : (gap ++ '(' :: (body ++ [')'])).dropWhile isSpace = '(' :: (body ++ [')']) := by
      rw [List.dropWhile_append_of_pos hgap]
      rfl
    rw [call?, word_append hname hhead, Option.bind_some]
    dsimp only
    rw [hopen]
    simp [String.ofList_toList]

theorem ofName?_eq_some_iff {f : DefaultFunction} :
    DefaultFunction.ofName? name = some f ↔ f.name = name := by
  constructor
  · intro h
    simpa using List.find?_some h
  · rintro rfl
    cases f <;> rfl

theorem defaultValue_eq_call_iff {call : FunctionCall} :
    defaultValue text = .ok (.call call) ↔ ∃ body, ReadsAsCall text call.function.name body ∧
      call.arguments = (pieces body).map String.ofList := by
  constructor
  · intro h
    unfold defaultValue at h
    split at h
    next name body hcall =>
      split at h
      next function hfunction =>
        cases h
        obtain rfl := ofName?_eq_some_iff.mp hfunction
        exact ⟨body, (call?_eq_some_iff.mp hcall).2, rfl⟩
      next => cases h
    next =>
      unfold literalOrRaw at h
      split at h <;> cases h
  · rintro ⟨body, hcall, harguments⟩
    have hread : call? text = some (call.function.name, body) :=
      call?_eq_some_iff.mpr ⟨FunctionCall.isIdentifier_name _, hcall⟩
    simp only [defaultValue, hread, ofName?_eq_some_iff.mpr rfl, ← harguments]

theorem interpret_default {raw : String} (h : strip raw.toList ≠ []) :
    interpret "default" raw = defaultValue (strip raw.toList) := by
  have hne : ¬(strip raw.toList).isEmpty := by simpa using h
  simp [interpret, hne]

theorem interpret_eq_call_iff {raw : String} {call : FunctionCall} :
    interpret "default" raw = .ok (.call call) ↔
      ∃ body, ReadsAsCall (strip raw.toList) call.function.name body ∧
        call.arguments = (pieces body).map String.ofList := by
  by_cases hempty : strip raw.toList = []
  · constructor
    · intro h
      simp [interpret, hempty] at h
    · rintro ⟨body, ⟨gap, -, htext⟩, -⟩
      simp [hempty] at htext
  · rw [interpret_default hempty, defaultValue_eq_call_iff]

/-! ## Where the first parenthesis is closed -/

/-- In a balanced text that is read as a call, either the last character closes the first
parenthesis, or the call ends before and a further text stands behind it. -/
theorem ReadsAsCall.closed_or_followed (h : ReadsAsCall text name body) (hname : IsIdentifier name)
    (htext : Balanced true text) :
    Balanced true body ∨ ¬Balanced true body ∧ ∃ inner further, further ≠ [] ∧
      body ++ [')'] = inner ++ ')' :: further ∧ Balanced true inner ∧ Balanced true further := by
  obtain ⟨gap, hgap, rfl⟩ := h
  have hgap' : Balanced true gap :=
    .of_bare fun c hc => isBare_of_isBlank (isBlank_of_isSpace (hgap c hc))
  have hparens : Balanced true ('(' :: (body ++ [')'])) :=
    (htext.of_append (hname.balanced true)).of_append hgap'
  rcases hparens.cons_cases with
    ⟨hbare, _⟩ | ⟨_, _, hquote, _⟩ | ⟨right, inner, further, hclosing, hinner, heq, hfurther⟩
  · cases hbare
  · rcases hquote with h | h <;> cases h
  · cases hclosing
    by_cases hnil : further = []
    · rw [hnil] at heq
      rw [List.append_cancel_right heq]
      exact .inl hinner
    · refine .inr ⟨fun hbody => ?_, inner, further, hnil, heq, hinner, hfurther⟩
      -- Behind the inner text the body goes on with a parenthesis that closes nothing in it.
      obtain ⟨more, c, rfl⟩ := (List.eq_nil_or_concat further).resolve_left hnil
      have hsplit : body ++ [')'] = (inner ++ ')' :: more) ++ [c] := by
        rw [heq, List.concat_eq_append, List.append_assoc, List.cons_append]
      rw [(List.append_inj' hsplit rfl).1] at hbody
      exact not_balanced_of_closes (closes_parenthesis more) (hbody.of_append hinner)

/-- Only a generated expression depends on the arguments of its function. -/
theorem default_congr {call call' : FunctionCall} (h : call.function = call'.function)
    (hfunction : call.function ≠ .dbgenerated) : call.default = call'.default := by
  obtain ⟨function, arguments⟩ := call
  obtain ⟨function', arguments'⟩ := call'
  cases h
  cases function <;> first | rfl | exact absurd rfl hfunction

/-- A default value is a call exactly when it begins with the name of a function and a parenthesis and
ends with a parenthesis. When the last one closes the first, the arguments are the texts between the
commas of the body that stand outside quotes and brackets, without the blank ones. Otherwise the call
is followed by a further text, which is lost in the column's default unless an expression is
generated. -/
theorem default_call_iff {cs rest : List Char} {raw : String} {call : FunctionCall}
    (h : rawArgument cs = some (raw.toList, rest)) :
    (interpret "default" raw = .ok (.call call) ↔
      ∃ body, ReadsAsCall (strip raw.toList) call.function.name body ∧
        call.arguments = (pieces body).map String.ofList) ∧
    ∀ body, ReadsAsCall (strip raw.toList) call.function.name body →
      (Balanced true body ∧ ∃ texts, (∀ t ∈ texts, Balanced false t) ∧
        body = [','].intercalate texts ∧
        pieces body = (texts.map strip).filter fun t => !t.isEmpty) ∨
      (¬Balanced true body ∧ ∃ inner further, further ≠ [] ∧
        body ++ [')'] = inner ++ ')' :: further ∧ Balanced true inner ∧ Balanced true further ∧
        (call.function ≠ .dbgenerated →
          call.default =
            FunctionCall.default ⟨call.function, (pieces inner).map String.ofList⟩)) := by
  refine ⟨interpret_eq_call_iff, fun body hbody => ?_⟩
  have htext : Balanced true (strip raw.toList) := (rawArgument_eq_some h).1.strip
  rcases hbody.closed_or_followed (FunctionCall.isIdentifier_name _) htext with
    hclosed | ⟨hopen, inner, further, hne, heq, hinner, hfurther⟩
  · obtain ⟨text, texts, htexts, rfl⟩ := hclosed.exists_intercalate
    exact .inl ⟨hclosed, text :: texts, htexts, rfl, pieces_intercalate htexts⟩
  · exact .inr ⟨hopen, inner, further, hne, heq, hinner, hfurther, default_congr rfl⟩

/-- A sum of two calls is read as one call, and the column's default is the first of the two. -/
theorem default_call_iff_of_sum :
    rawArgument "now() + now())".toList = some ("now() + now()".toList, [')']) ∧
      ReadsAsCall (strip "now() + now()".toList) "now" ") + now(".toList ∧
      ¬Balanced true ") + now(".toList ∧
      interpret "default" "now() + now()" = .ok (.call ⟨.now, [") + now("]⟩) ∧
      FunctionCall.default ⟨.now, [") + now("]⟩ = .ok (some .currentTimestamp) := by
  have hraw : rawArgument "now() + now())".toList = some ("now() + now()".toList, [')']) := by
    decide
  have hcall : ReadsAsCall (strip "now() + now()".toList) "now" ") + now(".toList :=
    ⟨[], by simp, by decide⟩
  refine ⟨hraw, hcall, not_balanced_of_closes (closes_parenthesis _), ?_, rfl⟩
  exact (default_call_iff hraw).1.mpr ⟨_, hcall, by decide⟩

end SchemaMigration.ArgumentText
