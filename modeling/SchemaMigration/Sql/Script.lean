import SchemaMigration.Text.Blank

/-! # Scripts

A script is cut into statements at its semicolons. A semicolon counts only in code: not in quotes of
one of three kinds, not in a comment from two hyphens to the end of the line, and not in a comment
between a slash with a star and a star with a slash. What holds no code, only blanks and comments,
is no statement.
-/

namespace SchemaMigration.Sql

open Text (isBlank strip)

/-- Where a scan of a script stands. Two states are within the two characters that open or close a
block comment. -/
inductive ScriptState
  | code
  | quoted (quote : Char)
  | lineComment
  | blockOpening
  | blockComment
  | blockClosing
  deriving DecidableEq, Repr

namespace ScriptState

/-- The state after one more character, given the character that follows it. -/
def next : ScriptState → Char → Option Char → ScriptState
  | .code, c, following =>
    if c = '\'' ∨ c = '"' ∨ c = Char.ofNat 0x60 then .quoted c
    else if c = '-' ∧ following = some '-' then .lineComment
    else if c = '/' ∧ following = some '*' then .blockOpening
    else .code
  | .quoted quote, c, _ => if c = quote then .code else .quoted quote
  | .lineComment, c, _ => if c = '\n' then .code else .lineComment
  | .blockOpening, _, _ => .blockComment
  | .blockComment, c, following =>
    if c = '*' ∧ following = some '/' then .blockClosing else .blockComment
  | .blockClosing, _, _ => .code

def inComment : ScriptState → Bool
  | .code | .quoted _ => false
  | .lineComment | .blockOpening | .blockComment | .blockClosing => true

/-- Whether a character is code: it is read in code, is not blank, and does not begin a comment. -/
def counts (state : ScriptState) (c : Char) (following : Option Char) : Bool :=
  state = .code && !isBlank c && !(state.next c following).inComment

end ScriptState

/-- A part of a script between semicolons, and whether it holds code. -/
structure Fragment where
  hasCode : Bool := false
  text : List Char := []
  deriving DecidableEq, Repr

/-- The fragments of a script from a state on. -/
def fragmentsFrom : ScriptState → List Char → List Fragment
  | _, [] => [{}]
  | state, c :: cs =>
    if state = .code ∧ c = ';' then {} :: fragmentsFrom .code cs
    else
      let code := state.counts c cs.head?
      match fragmentsFrom (state.next c cs.head?) cs with
      | fragment :: rest => ⟨code || fragment.hasCode, c :: fragment.text⟩ :: rest
      | [] => [⟨code, [c]⟩]

def fragments (script : String) : List Fragment :=
  fragmentsFrom .code script.toList

/-- The statements of a script: the fragments that hold code, without blanks at their ends. -/
def statements (script : String) : List String :=
  ((fragments script).filter Fragment.hasCode).map fun fragment =>
    String.ofList (strip fragment.text)

end SchemaMigration.Sql
