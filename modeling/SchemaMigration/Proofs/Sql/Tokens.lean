import Mathlib.Tactic.SplitIfs
import SchemaMigration.Proofs.Sql.Statements

/-! # Scripts by their tokens

The statements of a script are found by one scan with states. Here a script is cut into tokens
first: texts in quotes, comments, semicolons, and single characters. The semicolons among the tokens
separate the statements, and what lies between two of them is a statement when one of its tokens is
code. Both ways lead to the same statements, and each statement is the only one of its own text.
-/

namespace SchemaMigration.Sql

open Text (dropTrailing dropTrailing_eq_rdropWhile isBlank strip stripBy_stripBy)

/-! ## Tokens -/

/-- A token of a script. The quotes of a text in quotes and the marks of a comment belong to it. -/
inductive Token
  | quoted (text : List Char)
  | comment (text : List Char)
  | separator
  | character (c : Char)
  deriving DecidableEq, Repr

namespace Token

def text : Token → List Char
  | .quoted text | .comment text => text
  | .separator => [';']
  | .character c => [c]

def isSeparator : Token → Bool
  | .separator => true
  | _ => false

/-- Whether a token makes a statement of what it stands in: comments and blanks do not. -/
def isCode : Token → Bool
  | .quoted _ => true
  | .comment _ | .separator => false
  | .character c => !isBlank c

end Token

/-- A text through the first place where a mark stands, and what follows that place. Without the
mark it is the whole text. -/
def through (mark : List Char) : List Char → List Char × List Char
  | [] => ([], [])
  | c :: cs =>
    if mark <+: c :: cs then (mark, (c :: cs).drop mark.length)
    else (c :: (through mark cs).1, (through mark cs).2)

/-- The token that a character begins, given what stands behind the character, and what follows the
token. -/
def firstToken (c : Char) (cs : List Char) : Token × List Char :=
  if c = '\'' ∨ c = '"' ∨ c = Char.ofNat 0x60 then
    (.quoted (c :: (through [c] cs).1), (through [c] cs).2)
  else if c = '-' ∧ cs.head? = some '-' then
    (.comment (c :: cs.takeWhile (· ≠ '\n')), cs.dropWhile (· ≠ '\n'))
  else if c = '/' ∧ cs.head? = some '*' then
    (.comment (c :: '*' :: (through ['*', '/'] cs.tail).1), (through ['*', '/'] cs.tail).2)
  else if c = ';' then (.separator, cs)
  else (.character c, cs)

theorem through_append (mark cs : List Char) : (through mark cs).1 ++ (through mark cs).2 = cs := by
  induction cs with
  | nil => rfl
  | cons c cs ih =>
      unfold through
      split
      next hmark => exact List.prefix_iff_eq_append.mp hmark
      next => rw [List.cons_append, ih]

/-- A token and what follows it make up the text. -/
theorem text_firstToken (c : Char) (cs : List Char) :
    (firstToken c cs).1.text ++ (firstToken c cs).2 = c :: cs := by
  unfold firstToken
  split_ifs with hquote hline hblock hsemicolon
  · simp only [Token.text, List.cons_append, through_append]
  · simp only [Token.text, List.cons_append, List.takeWhile_append_dropWhile]
  · obtain ⟨ds, rfl⟩ := List.head?_eq_some_iff.mp hblock.2
    simp only [Token.text, List.cons_append, List.tail_cons, through_append]
  · simp only [Token.text, hsemicolon, List.singleton_append]
  · rfl

theorem length_firstToken (c : Char) (cs : List Char) :
    (firstToken c cs).2.length < (c :: cs).length := by
  have hne : (firstToken c cs).1.text ≠ [] := by
    unfold firstToken
    split_ifs <;> simp [Token.text]
  have hlength := congrArg List.length (text_firstToken c cs)
  have hpos := List.length_pos_iff.mpr hne
  rw [List.length_append] at hlength
  omega

/-- The tokens of a text, from left to right. -/
def tokens : List Char → List Token
  | [] => []
  | c :: cs => (firstToken c cs).1 :: tokens (firstToken c cs).2
termination_by cs => cs.length
decreasing_by exact length_firstToken c cs

/-- The tokens make up the text. -/
theorem flatMap_text_tokens (cs : List Char) : (tokens cs).flatMap Token.text = cs := by
  induction cs using tokens.induct with
  | case1 => simp [tokens]
  | case2 c cs ih => rw [tokens, List.flatMap_cons, ih, text_firstToken]

/-! ## The scan of a token -/

/-- The fragment that tokens between two semicolons make. -/
def Fragment.ofTokens (group : List Token) : Fragment :=
  ⟨group.any Token.isCode, group.flatMap Token.text⟩

/-- The fragment with a token in front of it. -/
def Token.before (token : Token) (fragment : Fragment) : Fragment :=
  ⟨token.isCode || fragment.hasCode, token.text ++ fragment.text⟩

section Scan

variable {c quote : Char} {cs : List Char}

theorem fragmentsFrom_quoted (quote : Char) (cs : List Char) :
    fragmentsFrom (.quoted quote) cs = (fragmentsFrom .code (through [quote] cs).2).modifyHead
      fun fragment => ⟨fragment.hasCode, (through [quote] cs).1 ++ fragment.text⟩ := by
  induction cs with
  | nil => rfl
  | cons c cs ih =>
      rw [fragmentsFrom_cons (by simp), through]
      by_cases hc : c = quote
      · subst hc
        rw [if_pos (by simp), show (ScriptState.quoted c).next c cs.head? = .code by
          simp [ScriptState.next]]
        rfl
      · have hmark : ¬[quote] <+: c :: cs := by simp [Ne.symm hc]
        rw [if_neg hmark, show (ScriptState.quoted quote).next c cs.head? = .quoted quote by
          simp [ScriptState.next, hc], ih, List.modifyHead_modifyHead]
        rfl

theorem fragmentsFrom_blockComment (cs : List Char) :
    fragmentsFrom .blockComment cs = (fragmentsFrom .code (through ['*', '/'] cs).2).modifyHead
      fun fragment => ⟨fragment.hasCode, (through ['*', '/'] cs).1 ++ fragment.text⟩ := by
  induction cs with
  | nil => rfl
  | cons c cs ih =>
      rw [fragmentsFrom_cons (by simp), through]
      by_cases hmark : ['*', '/'] <+: c :: cs
      · obtain ⟨rest, hrest⟩ := hmark
        obtain ⟨rfl, rfl⟩ := List.cons.inj hrest.symm
        rw [if_pos (by simp)]
        change List.modifyHead _ (fragmentsFrom .blockClosing ('/' :: rest)) = _
        rw [fragmentsFrom_cons (by simp), List.modifyHead_modifyHead]
        rfl
      · have hnext : ScriptState.blockComment.next c cs.head? = .blockComment := by
          refine if_neg fun hclosing => hmark ?_
          obtain ⟨rest, rfl⟩ := List.head?_eq_some_iff.mp hclosing.2
          simp [hclosing.1]
        rw [if_neg hmark, hnext, ih, List.modifyHead_modifyHead]
        rfl

/-- A token becomes part of the fragment behind it, unless it is a separator. -/
theorem fragmentsFrom_firstToken (hc : (firstToken c cs).1.isSeparator = false) :
    fragmentsFrom .code (c :: cs) =
      (fragmentsFrom .code (firstToken c cs).2).modifyHead (firstToken c cs).1.before := by
  unfold firstToken at hc ⊢
  split_ifs at hc ⊢ with hquote hline hblock hsemicolon
  · have hcode : c ≠ ';' := by
      rintro rfl
      revert hquote
      decide
    have hnext : ScriptState.code.next c cs.head? = .quoted c := if_pos hquote
    have hblank : isBlank c = false := by
      rcases hquote with rfl | rfl | rfl <;> decide
    rw [fragmentsFrom_cons (by simp [hcode]), hnext, fragmentsFrom_quoted,
      List.modifyHead_modifyHead, ScriptState.counts, hnext, hblank]
    rfl
  · obtain ⟨rfl, hhead⟩ := hline
    have hnext : ScriptState.code.next '-' cs.head? = .lineComment := by
      rw [hhead]
      rfl
    rw [fragmentsFrom_cons (by simp), hnext, fragmentsFrom_line,
      List.modifyHead_modifyHead, ScriptState.counts, hnext]
    rfl
  · obtain ⟨rfl, hhead⟩ := hblock
    obtain ⟨ds, rfl⟩ := List.head?_eq_some_iff.mp hhead
    rw [fragmentsFrom_cons (by simp)]
    change List.modifyHead _ (fragmentsFrom .blockOpening ('*' :: ds)) = _
    rw [fragmentsFrom_cons (by simp)]
    change List.modifyHead _ (List.modifyHead _ (fragmentsFrom .blockComment ds)) = _
    rw [fragmentsFrom_blockComment, List.modifyHead_modifyHead, List.modifyHead_modifyHead]
    rfl
  · cases hc
  · have hnext : ScriptState.code.next c cs.head? = .code := by
      simp [ScriptState.next, hquote, hline, hblock]
    rw [fragmentsFrom_cons (by simp [hsemicolon]), hnext, ScriptState.counts, hnext]
    simp only [decide_true, Bool.true_and, ScriptState.inComment, Bool.not_false, Bool.and_true]
    rfl

/-- The fragments of a script are made by its tokens between the separators. -/
theorem fragmentsFrom_eq_tokens (cs : List Char) :
    fragmentsFrom .code cs =
      ((tokens cs).splitOnP Token.isSeparator).map Fragment.ofTokens := by
  induction cs using tokens.induct with
  | case1 => simp [tokens, fragmentsFrom, Fragment.ofTokens]
  | case2 c cs ih =>
      rw [tokens, List.splitOnP_cons_eq_if_modifyHead]
      cases hseparator : (firstToken c cs).1.isSeparator with
      | true =>
          have htoken : (firstToken c cs) = (.separator, cs) ∧ c = ';' := by
            unfold firstToken at hseparator ⊢
            split_ifs at hseparator ⊢ with hquote hline hblock hsemicolon
            all_goals simp_all [Token.isSeparator]
          obtain ⟨htoken, rfl⟩ := htoken
          rw [htoken] at ih ⊢
          rw [if_pos rfl, List.map_cons, ← ih, fragmentsFrom, if_pos ⟨rfl, rfl⟩]
          rfl
      | false =>
          rw [fragmentsFrom_firstToken hseparator, ih, if_neg (by simp)]
          cases (tokens (firstToken c cs).2).splitOnP Token.isSeparator with
          | nil => rfl
          | cons group groups => rfl

end Scan

/-! ## Statements by themselves -/

section Alone

variable {state : ScriptState} {cs : List Char} {c : Char} {fragment : Fragment}
  {more : List Fragment}

/-- What a scan reads does not depend on more of what follows than whether it is heeded. -/
theorem counts_heeded (state : ScriptState) (c : Char) (following : Option Char) :
    state.counts c (ScriptState.heeded following) = state.counts c following := by
  rw [ScriptState.counts, ScriptState.next_heeded, ScriptState.counts]

/-- A fragment begins as the text does, unless the text begins with a semicolon. -/
theorem heeded_head?_text (h : fragmentsFrom state cs = fragment :: more) :
    ScriptState.heeded fragment.text.head? = ScriptState.heeded cs.head? := by
  cases cs with
  | nil =>
      obtain ⟨rfl, -⟩ := List.cons.inj h
      rfl
  | cons c cs =>
      by_cases hc : state = .code ∧ c = ';'
      · rw [fragmentsFrom, if_pos hc] at h
        obtain ⟨rfl, -⟩ := List.cons.inj h
        rw [List.head?_cons, hc.2]
        rfl
      · obtain ⟨first, rest, hrest⟩ := List.exists_cons_of_ne_nil
          (fragmentsFrom_ne_nil (state.next c cs.head?) cs)
        rw [fragmentsFrom_cons hc, hrest, List.modifyHead_cons] at h
        obtain ⟨rfl, -⟩ := List.cons.inj h
        rfl

/-- A fragment is the only fragment of its own text. -/
theorem fragmentsFrom_text (h : fragmentsFrom state cs = fragment :: more) :
    fragmentsFrom state fragment.text = [fragment] ∧
      ∀ other ∈ more, fragmentsFrom .code other.text = [other] := by
  induction cs generalizing state fragment more with
  | nil =>
      obtain ⟨rfl, rfl⟩ := List.cons.inj h
      simp [fragmentsFrom]
  | cons c cs ih =>
      by_cases hc : state = .code ∧ c = ';'
      · rw [fragmentsFrom, if_pos hc] at h
        obtain ⟨rfl, rfl⟩ := List.cons.inj h
        refine ⟨by simp [fragmentsFrom], ?_⟩
        obtain ⟨first, rest, hrest⟩ := List.exists_cons_of_ne_nil (fragmentsFrom_ne_nil .code cs)
        obtain ⟨hfirst, hothers⟩ := ih hrest
        rw [hrest]
        exact List.forall_mem_cons.mpr ⟨hfirst, hothers⟩
      · obtain ⟨first, rest, hrest⟩ := List.exists_cons_of_ne_nil
          (fragmentsFrom_ne_nil (state.next c cs.head?) cs)
        obtain ⟨hfirst, hothers⟩ := ih hrest
        rw [fragmentsFrom_cons hc, hrest, List.modifyHead_cons] at h
        obtain ⟨rfl, rfl⟩ := List.cons.inj h
        -- The first fragment may end where a semicolon follows in the script, which is not heeded.
        have hheeded := heeded_head?_text hrest
        refine ⟨?_, hothers⟩
        rw [fragmentsFrom_cons hc, ← ScriptState.next_heeded, ← counts_heeded, hheeded,
          ScriptState.next_heeded, counts_heeded, hfirst]
        rfl

/-- A text is the only fragment of itself when what follows its first character is, and the first
character is no separator. -/
theorem fragmentsFrom_cons_eq_singleton {hasCode : Bool} :
    fragmentsFrom state (c :: cs) = [⟨hasCode, c :: cs⟩] ↔
      ¬(state = .code ∧ c = ';') ∧ ∃ further,
        fragmentsFrom (state.next c cs.head?) cs = [⟨further, cs⟩] ∧
          hasCode = (state.counts c cs.head? || further) := by
  constructor
  · intro h
    by_cases hc : state = .code ∧ c = ';'
    · rw [fragmentsFrom, if_pos hc] at h
      cases h
    · obtain ⟨⟨further, text⟩, rest, hrest⟩ := List.exists_cons_of_ne_nil
        (fragmentsFrom_ne_nil (state.next c cs.head?) cs)
      rw [fragmentsFrom_cons hc, hrest, List.modifyHead_cons] at h
      obtain ⟨hhead, rfl⟩ := List.cons.inj h
      obtain ⟨rfl, htext⟩ := Fragment.mk.inj hhead
      obtain rfl := (List.cons.inj htext).2
      exact ⟨hc, further, hrest, rfl⟩
  · rintro ⟨hc, further, hfurther, rfl⟩
    rw [fragmentsFrom_cons hc, hfurther]
    rfl

theorem counts_of_isBlank (hc : isBlank c = true) (state : ScriptState)
    (following : Option Char) : state.counts c following = false := by
  simp [ScriptState.counts, hc]

theorem next_of_isBlank (hc : isBlank c = true) (following : Option Char) :
    ScriptState.code.next c following = .code := by
  have hother (d : Char) (hd : isBlank d = false) : c ≠ d := by
    rintro rfl
    exact absurd hc (by simp [hd])
  simp [ScriptState.next, hother '\'' (by decide), hother '"' (by decide),
    hother (Char.ofNat 0x60) (by decide), hother '-' (by decide), hother '/' (by decide)]

theorem not_isHeeded_of_isBlank (hc : isBlank c = true) : ScriptState.isHeeded c = false := by
  refine Bool.eq_false_iff.mpr fun hheeded => ?_
  rcases ScriptState.isHeeded_iff.mp hheeded with rfl | rfl | rfl <;> revert hc <;> decide

theorem fragmentsFrom_dropWhile {hasCode : Bool} (h : fragmentsFrom .code cs = [⟨hasCode, cs⟩]) :
    fragmentsFrom .code (cs.dropWhile isBlank) = [⟨hasCode, cs.dropWhile isBlank⟩] := by
  induction cs generalizing hasCode with
  | nil => exact h
  | cons c cs ih =>
      by_cases hc : isBlank c = true
      · obtain ⟨-, further, hfurther, rfl⟩ := fragmentsFrom_cons_eq_singleton.mp h
        rw [next_of_isBlank hc] at hfurther
        rw [counts_of_isBlank hc, Bool.false_or, List.dropWhile_cons_of_pos hc]
        exact ih hfurther
      · rwa [List.dropWhile_cons_of_neg hc]

/-- A blank at the end of a text is not needed, in whichever state it is read. -/
theorem fragmentsFrom_concat (hc : isBlank c = true) {hasCode : Bool}
    (h : fragmentsFrom state (cs ++ [c]) = [⟨hasCode, cs ++ [c]⟩]) :
    fragmentsFrom state cs = [⟨hasCode, cs⟩] := by
  induction cs generalizing state hasCode with
  | nil =>
      obtain ⟨-, further, hfurther, rfl⟩ := fragmentsFrom_cons_eq_singleton.mp h
      rw [counts_of_isBlank hc]
      exact hfurther
  | cons d cs ih =>
      obtain ⟨hd, further, hfurther, rfl⟩ := fragmentsFrom_cons_eq_singleton.mp h
      have hhead : ScriptState.heeded (cs ++ [c]).head? = ScriptState.heeded cs.head? := by
        cases cs with
        | nil => exact Option.filter_some_neg (by simp [not_isHeeded_of_isBlank hc])
        | cons e cs => rfl
      rw [List.append_eq, ← ScriptState.next_heeded, hhead, ScriptState.next_heeded] at hfurther
      rw [List.append_eq, ← counts_heeded, hhead, counts_heeded]
      exact fragmentsFrom_cons_eq_singleton.mpr ⟨hd, further, ih hfurther, rfl⟩

theorem fragmentsFrom_dropTrailing {hasCode : Bool}
    (h : fragmentsFrom .code cs = [⟨hasCode, cs⟩]) :
    fragmentsFrom .code (dropTrailing isBlank cs) = [⟨hasCode, dropTrailing isBlank cs⟩] := by
  rw [dropTrailing_eq_rdropWhile]
  induction cs using List.reverseRecOn with
  | nil => exact h
  | append_singleton cs c ih =>
      by_cases hc : isBlank c = true
      · rw [List.rdropWhile_concat_pos isBlank cs c hc]
        exact ih (fragmentsFrom_concat hc h)
      · rwa [List.rdropWhile_concat_neg isBlank cs c hc]

theorem fragmentsFrom_strip {hasCode : Bool} (h : fragmentsFrom .code cs = [⟨hasCode, cs⟩]) :
    fragmentsFrom .code (strip cs) = [⟨hasCode, strip cs⟩] :=
  fragmentsFrom_dropTrailing (fragmentsFrom_dropWhile h)

theorem statements_of_mem {script s : String} (h : s ∈ statements script) :
    statements s = [s] := by
  obtain ⟨⟨hasCode, text⟩, hfragment, rfl⟩ := List.mem_map.mp h
  obtain ⟨hmem, hcode⟩ := List.mem_filter.mp hfragment
  obtain rfl : hasCode = true := hcode
  obtain ⟨first, more, hsplit⟩ := List.exists_cons_of_ne_nil
    (fragmentsFrom_ne_nil .code script.toList)
  obtain ⟨hfirst, hmore⟩ := fragmentsFrom_text hsplit
  have halone : fragmentsFrom .code text = [⟨true, text⟩] := by
    rw [fragments, hsplit] at hmem
    rcases List.mem_cons.mp hmem with rfl | hmem
    · exact hfirst
    · exact hmore _ hmem
  rw [statements, fragments, String.toList_ofList, fragmentsFrom_strip halone]
  simp [strip, stripBy_stripBy]

end Alone

/-- The statements of a script are what lies between its separators and has code in it, without the
blanks at its ends, and the tokens make up the script. Each statement is the only one of its own
text. -/
theorem statements_eq_tokens (script : String) :
    statements script = ((((tokens script.toList).splitOnP Token.isSeparator).filter
        fun group => group.any Token.isCode).map fun group =>
          String.ofList (strip (group.flatMap Token.text))) ∧
      (tokens script.toList).flatMap Token.text = script.toList ∧
      ∀ s ∈ statements script, statements s = [s] := by
  refine ⟨?_, flatMap_text_tokens _, fun s hs => statements_of_mem hs⟩
  rw [statements, fragments, fragmentsFrom_eq_tokens, List.filter_map, List.map_map]
  rfl

/-- A statement with a semicolon and a comment's mark in quotes, in a script where what looks like
the end of a comment opens it, and where nothing closes the last quote. -/
theorem statements_eq_tokens_of_marks :
    "a = \"b;--\"\"\"" ∈ statements "/*/;*/;a = \"b;--\"\"\" ;--'\n;;'/*; " ∧
      statements "a = \"b;--\"\"\"" = ["a = \"b;--\"\"\""] := by
  have hmem : "a = \"b;--\"\"\"" ∈ statements "/*/;*/;a = \"b;--\"\"\" ;--'\n;;'/*; " := by
    decide
  exact ⟨hmem, (statements_eq_tokens _).2.2 _ hmem⟩

end SchemaMigration.Sql
