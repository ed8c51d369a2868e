import SchemaMigration.Schema.Grammar.Outline
import SchemaMigration.Text.Blank

/-! # Pieces and literals of raw arguments

The raw text of an attribute's arguments falls into pieces at its commas, those inside quotes and
brackets aside. A piece may be a literal: a quoted string, a truth value, an integer, a decimal or
an identifier.
-/

namespace SchemaMigration.ArgumentText

open Text (strip isWord isDigit)
open Number (Binary64)

/-- Where a scan for commas stands: outside quotes and inside a number of brackets, or inside quotes
of a kind, the next character escaped or not. -/
inductive ScanState
  | code (depth : Nat)
  | quoted (quote : Char) (escaped : Bool) (depth : Nat)
  deriving DecidableEq, Repr

namespace ScanState

/-- The state after one more character. Closing brackets that nothing opened change nothing. -/
def next : ScanState → Char → ScanState
  | .quoted q true depth, _ => .quoted q false depth
  | .quoted q false depth, c =>
    if c = '\\' then .quoted q true depth
    else if c = q then .code depth
    else .quoted q false depth
  | .code depth, c =>
    if c = '"' ∨ c = '\'' then .quoted c false depth
    else if c = '(' ∨ c = '[' then .code (depth + 1)
    else if c = ')' ∨ c = ']' then .code (depth - 1)
    else .code depth

end ScanState

/-- A text cut at its commas outside quotes and brackets. -/
def cut : ScanState → List Char → List (List Char)
  | _, [] => [[]]
  | state, c :: cs =>
    if c = ',' ∧ state = .code 0 then [] :: cut state cs
    else
      match cut (state.next c) cs with
      | piece :: pieces => (c :: piece) :: pieces
      | [] => [[c]]

/-- The pieces of a text between its commas, without blanks at their ends and without empty ones. -/
def pieces (cs : List Char) : List (List Char) :=
  ((cut (.code 0) cs).map strip).filter fun p => !p.isEmpty

/-- Whether the inside of quotes of a kind is well-formed: no quote of that kind stands in it
unescaped, and no backslash is left at its end. -/
def isQuotable (quote : Char) : List Char → Bool
  | '\\' :: _ :: cs => isQuotable quote cs
  | c :: cs => c ≠ '\\' && c ≠ quote && isQuotable quote cs
  | [] => true

/-- The inside of a text that is one quoted string, in quotes of either kind. -/
def inside? : List Char → Option (List Char)
  | q :: cs =>
    if (q = '"' ∨ q = '\'') ∧ cs.getLast? = some q ∧ isQuotable q cs.dropLast then
      some cs.dropLast
    else none
  | [] => none

/-- The string that a text denotes when it is one quoted string. -/
def unquote? (cs : List Char) : Option String :=
  (inside? cs).map fun inner => String.ofList (Grammar.unescape inner)

/-- A text without a minus sign at its front, and whether there was one. -/
def splitSign : List Char → Bool × List Char
  | '-' :: cs => (true, cs)
  | cs => (false, cs)

/-- Whether a text is one digit or more and nothing else. -/
def isDigits (cs : List Char) : Bool :=
  !cs.isEmpty && cs.all isDigit

/-- The integer or decimal that a text denotes. An integer beyond 64 bits denotes nothing. -/
def number? (cs : List Char) : Option (Option Literal) :=
  let (negative, body) := splitSign cs
  let whole := body.takeWhile isDigit
  match body.dropWhile isDigit with
  | [] =>
    if isDigits whole then some ((Number.readInt64 negative whole).map Literal.int) else none
  | '.' :: fraction =>
    if isDigits whole && isDigits fraction then
      some (some (.float (Binary64.ofDecimal negative whole fraction)))
    else none
  | _ => none

def literal? (text : List Char) : Option Literal :=
  let cs := strip text
  match unquote? cs with
  | some s => some (.string s)
  | none =>
    if cs = "true".toList then some (.boolean true)
    else if cs = "false".toList then some (.boolean false)
    else
      match number? cs with
      | some value => value
      | none => if isWord cs then some (.ident (String.ofList cs)) else none

end SchemaMigration.ArgumentText

/-- The literal that an argument of a function call denotes. -/
def SchemaMigration.FunctionCall.literalAt? (call : FunctionCall) (index : Nat) : Option Literal :=
  call.arguments[index]?.bind fun text => ArgumentText.literal? text.toList
