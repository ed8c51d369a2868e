import SchemaMigration.Text.Scan

/-! # Strings of TOML

The four kinds of strings: in double quotes, where backslashes escape, and in single quotes, where
nothing does; each on one line in single quotes of its kind, or on several lines in triple ones. In
a text of several lines the line end right after the opening quotes is dropped, and every other line
end is a line feed.
-/

namespace SchemaMigration.Toml

open Text (Scanner isDigit)

/-- A character that may stand in a text: a tab, or any character that is no control character of
ASCII. -/
def isPlain (c : Char) : Bool :=
  c == '\t' || (0x20 ≤ c.toNat && c.toNat != 0x7F)

/-- The value of a hexadecimal digit, in letters of either case. -/
def hexValue? (c : Char) : Option Nat :=
  if isDigit c then some (c.toNat - '0'.toNat)
  else if 'a' ≤ c && c ≤ 'f' then some (c.toNat - 'a'.toNat + 10)
  else if 'A' ≤ c && c ≤ 'F' then some (c.toNat - 'A'.toNat + 10)
  else none

def hexNumber? (digits : List Char) : Option Nat :=
  digits.foldlM (fun n c => (hexValue? c).map fun d => 16 * n + d) 0

def hexChar? (digits : List Char) : Option Char :=
  (hexNumber? digits).bind fun n => if n.isValidChar then some (Char.ofNat n) else none

/-- The character that a backslash and a letter stand for. -/
def escapedChar? : Char → Option Char
  | 'b' => some (Char.ofNat 0x8)
  | 't' => some '\t'
  | 'n' => some '\n'
  | 'f' => some (Char.ofNat 0xC)
  | 'r' => some '\r'
  | '"' => some '"'
  | '\\' => some '\\'
  | _ => none

/-- A scanned text with one more character before it. -/
def withChar (c : Option Char) (rest : Option (List Char × List Char)) :
    Option (List Char × List Char) := do
  let c ← c
  let (text, rest) ← rest
  return (c :: text, rest)

/-- The inside of a string in double quotes, and what follows the closing quote. -/
def basicInside : Scanner
  | '"' :: cs => some ([], cs)
  | '\\' :: 'u' :: c₁ :: c₂ :: c₃ :: c₄ :: cs =>
    withChar (hexChar? [c₁, c₂, c₃, c₄]) (basicInside cs)
  | '\\' :: 'U' :: c₁ :: c₂ :: c₃ :: c₄ :: c₅ :: c₆ :: c₇ :: c₈ :: cs =>
    withChar (hexChar? [c₁, c₂, c₃, c₄, c₅, c₆, c₇, c₈]) (basicInside cs)
  | '\\' :: c :: cs => withChar (escapedChar? c) (basicInside cs)
  | c :: cs => if isPlain c then withChar (some c) (basicInside cs) else none
  | [] => none

/-- The inside of a string in single quotes, and what follows the closing quote. -/
def literalInside : Scanner
  | '\'' :: cs => some ([], cs)
  | c :: cs => if isPlain c then withChar (some c) (literalInside cs) else none
  | [] => none

/-- Where a text of several lines stands: in the text, after a backslash that ends a line, or among
the blanks that such a backslash takes away. -/
inductive LineState
  | text
  | lineEnd
  | trimming
  deriving DecidableEq, Repr

def LineState.afterLine : LineState → LineState
  | .text => .text
  | _ => .trimming

/-- A line end in a text of several lines, which counts as a line feed unless it is taken away. -/
def withLineFeed (state : LineState) (rest : Option (List Char × List Char)) :
    Option (List Char × List Char) :=
  match state with
  | .text => withChar (some '\n') rest
  | _ => rest

def isInlineBlank (c : Char) : Bool :=
  c == ' ' || c == '\t'

/-- The inside of a text of several lines in triple double quotes, and what follows the closing
quotes. Up to two quotes may stand right before these. -/
def basicLines : LineState → Scanner
  | state, '\n' :: cs => withLineFeed state (basicLines state.afterLine cs)
  | state, '\r' :: '\n' :: cs => withLineFeed state (basicLines state.afterLine cs)
  | .lineEnd, c :: cs => if isInlineBlank c then basicLines .lineEnd cs else none
  | _, '"' :: '"' :: '"' :: '"' :: '"' :: cs => some (['"', '"'], cs)
  | _, '"' :: '"' :: '"' :: '"' :: cs => some (['"'], cs)
  | _, '"' :: '"' :: '"' :: cs => some ([], cs)
  | _, '\\' :: 'u' :: c₁ :: c₂ :: c₃ :: c₄ :: cs =>
    withChar (hexChar? [c₁, c₂, c₃, c₄]) (basicLines .text cs)
  | _, '\\' :: 'U' :: c₁ :: c₂ :: c₃ :: c₄ :: c₅ :: c₆ :: c₇ :: c₈ :: cs =>
    withChar (hexChar? [c₁, c₂, c₃, c₄, c₅, c₆, c₇, c₈]) (basicLines .text cs)
  | _, '\\' :: '\n' :: cs => basicLines .trimming cs
  | _, '\\' :: '\r' :: '\n' :: cs => basicLines .trimming cs
  | _, '\\' :: c :: cs =>
    if isInlineBlank c then basicLines .lineEnd cs
    else withChar (escapedChar? c) (basicLines .text cs)
  | state, c :: cs =>
    if state = .trimming ∧ isInlineBlank c then basicLines .trimming cs
    else if isPlain c then withChar (some c) (basicLines .text cs)
    else none
  | _, [] => none

/-- The inside of a text of several lines in triple single quotes, and what follows the closing
quotes. Up to two quotes may stand right before these. -/
def literalLines : Scanner
  | '\r' :: '\n' :: cs => withChar (some '\n') (literalLines cs)
  | '\n' :: cs => withChar (some '\n') (literalLines cs)
  | '\'' :: '\'' :: '\'' :: '\'' :: '\'' :: cs => some (['\'', '\''], cs)
  | '\'' :: '\'' :: '\'' :: '\'' :: cs => some (['\''], cs)
  | '\'' :: '\'' :: '\'' :: cs => some ([], cs)
  | c :: cs => if isPlain c then withChar (some c) (literalLines cs) else none
  | [] => none

/-- A text without a line end at its front. -/
def withoutLineEnd : List Char → List Char
  | '\n' :: cs => cs
  | '\r' :: '\n' :: cs => cs
  | cs => cs

/-- A string of any kind, and what follows it. -/
def string : Scanner
  | '"' :: '"' :: '"' :: cs => basicLines .text (withoutLineEnd cs)
  | '"' :: cs => basicInside cs
  | '\'' :: '\'' :: '\'' :: cs => literalLines (withoutLineEnd cs)
  | '\'' :: cs => literalInside cs
  | _ => none

end SchemaMigration.Toml
