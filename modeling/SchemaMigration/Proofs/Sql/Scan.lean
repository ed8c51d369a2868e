import Mathlib.Data.Option.Basic
import SchemaMigration.Sql.Script

/-! # Scans of texts

A scan of a script can be taken apart at any place: the scan of what stands before the place depends
on what comes behind it by one character at most. A text is closed when, wherever it stands in code,
the scan of it comes back to code and meets no semicolon there. What is put together from closed
texts is closed, so a script of closed statements is cut between them and nowhere else.
-/

namespace SchemaMigration.Sql

open Text (isBlank strip)

namespace ScriptState

/-- The state after a text, given the character that follows the text, unless a semicolon is met in
code. -/
def after : ScriptState → List Char → Option Char → Option ScriptState
  | state, [], _ => some state
  | state, c :: cs, following =>
    if state = .code ∧ c = ';' then none
    else (state.next c (cs.head?.or following)).after cs following

variable {state : ScriptState} {cs ds : List Char} {c : Char}

theorem after_append (state : ScriptState) (cs ds : List Char) (following : Option Char) :
    state.after (cs ++ ds) following =
      (state.after cs (ds.head?.or following)).bind fun middle => middle.after ds following := by
  induction cs generalizing state with
  | nil => rfl
  | cons c cs ih =>
      simp only [List.cons_append, after, List.head?_append, Option.or_assoc]
      split
      · rfl
      · exact ih _

/-- A character that may open or close a comment together with the one before it. -/
def isHeeded (c : Char) : Bool :=
  c = '-' || c = '*' || c = '/'

theorem isHeeded_iff : isHeeded c = true ↔ c = '-' ∨ c = '*' ∨ c = '/' := by
  simp [isHeeded, or_assoc]

/-- A following character, if a scan heeds it. -/
def heeded (following : Option Char) : Option Char :=
  following.filter isHeeded

theorem next_heeded (state : ScriptState) (c : Char) (following : Option Char) :
    state.next c (heeded following) = state.next c following := by
  cases following with
  | none => rfl
  | some d =>
      by_cases hd : isHeeded d = true
      · rw [heeded, Option.filter_some_pos hd]
      · rw [heeded, Option.filter_some_neg (by simpa using hd)]
        simp only [isHeeded_iff, not_or] at hd
        cases state <;> simp [next, hd]

/-- The scan of a text depends on what follows only if that may open or close a comment. -/
theorem after_heeded (state : ScriptState) (cs : List Char) (following : Option Char) :
    state.after cs (heeded following) = state.after cs following := by
  induction cs generalizing state with
  | nil => rfl
  | cons c cs ih =>
      have hnext : state.next c (cs.head?.or (heeded following)) =
          state.next c (cs.head?.or following) := by
        cases cs with
        | nil => exact next_heeded state c following
        | cons d cs => rfl
      simp only [after, hnext, ih]

end ScriptState

/-! ## Closed texts -/

/-- A text whose scan, wherever it begins in code, ends in code and meets no semicolon in code. -/
def Closed (s : String) : Prop :=
  ∀ following, ScriptState.code.after s.toList following = some .code

/-- A text whose scan by itself, beginning in code, ends in code and meets no semicolon in code. -/
def SelfContained (s : String) : Prop :=
  ScriptState.code.after s.toList none = some .code

instance (s : String) : Decidable (SelfContained s) :=
  inferInstanceAs (Decidable (_ = _))

namespace Closed

open ScriptState (after after_append after_heeded heeded isHeeded isHeeded_iff)

variable {s t : String}

/-- To be closed a text has to be so only before the characters that a scan heeds. -/
theorem iff_heeded : Closed s ↔ ∀ following ∈ [none, some '-', some '*', some '/'],
    ScriptState.code.after s.toList following = some .code := by
  constructor
  · exact fun h following _ => h following
  · intro h following
    rw [← after_heeded]
    refine h _ ?_
    cases following with
    | none => simp [heeded]
    | some d =>
        by_cases hd : isHeeded d = true
        · rw [heeded, Option.filter_some_pos hd]
          rcases isHeeded_iff.mp hd with rfl | rfl | rfl <;> simp
        · rw [heeded, Option.filter_some_neg (by simpa using hd)]
          simp

instance (s : String) : Decidable (Closed s) :=
  decidable_of_iff' _ iff_heeded

theorem append (hs : Closed s) (ht : Closed t) : Closed (s ++ t) := by
  intro following
  rw [String.toList_append, after_append, hs, Option.bind_some, ht]

theorem empty : Closed "" :=
  fun _ => rfl

theorem intercalate {separator : String} (hseparator : Closed separator) {texts : List String}
    (h : ∀ t ∈ texts, Closed t) : Closed (separator.intercalate texts) := by
  induction texts with
  | nil =>
      rw [String.intercalate_nil]
      exact empty
  | cons t texts ih =>
      have ht : Closed t := h t List.mem_cons_self
      have hrest := ih fun u hu => h u (List.mem_cons_of_mem _ hu)
      by_cases hnil : texts = []
      · rw [hnil, String.intercalate_singleton]
        exact ht
      · rw [String.intercalate_cons_of_ne_nil hnil]
        exact (ht.append hseparator).append hrest

/-- A text that is self-contained is closed once it stands in parentheses. -/
theorem parenthesized (h : SelfContained s) : Closed ("(" ++ s ++ ")") := by
  intro following
  -- No scan heeds a parenthesis, so the text is scanned as if it stood by itself.
  have hinner : ScriptState.code.after s.toList (some ')') = some .code := by
    rw [← after_heeded]
    exact h
  have hopen : ("(" : String).toList = ['('] := rfl
  have hclose : (")" : String).toList = [')'] := rfl
  have hstart (next : Option Char) : ScriptState.code.after ['('] next = some .code := rfl
  rw [String.toList_append, String.toList_append, hopen, hclose, after_append, after_append,
    hstart, Option.bind_some, List.head?_cons, Option.some_or, hinner]
  rfl

end Closed

end SchemaMigration.Sql
