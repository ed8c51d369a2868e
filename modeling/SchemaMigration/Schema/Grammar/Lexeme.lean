import SchemaMigration.Schema.Grammar.Symbol
import SchemaMigration.Text.Scan

/-! # Lexemes of the schema language

The scanners for what the grammar reads as one piece, without gaps inside: keywords, numbers, truth
values, the inside of strings, dotted attribute names, and the raw text between the parentheses of
an attribute. The last is read by nested pieces: quoted strings, bracketed groups that must close,
and single characters.
-/

namespace SchemaMigration.Grammar.Lexeme

open Text (Scanner isDigit isWordChar word after? run)

/-- Succeeds with nothing more read when no word character follows. -/
def endWord (lexeme rest : List Char) : Option (List Char × List Char) :=
  if rest.head?.any isWordChar then none else some (lexeme, rest)

/-- A fixed word that no word character follows. -/
def wholeWord (text : String) : Scanner :=
  fun cs => (after? text.toList cs).bind (endWord text.toList)

def keyword (kind : BlockKind) : Scanner :=
  wholeWord kind.keyword

def boolean : Scanner :=
  fun cs => (wholeWord "true" cs).or (wholeWord "false" cs)

def fraction (cs : List Char) : List Char × List Char :=
  match cs with
  | '.' :: rest =>
    match run isDigit rest with
    | some (digits, rest) => ('.' :: digits, rest)
    | none => ([], cs)
  | _ => ([], cs)

def unsigned : Scanner :=
  fun cs =>
    (run isDigit cs).map fun (whole, rest) =>
      let (part, rest) := fraction rest
      (whole ++ part, rest)

/-- A number: a minus sign or none, digits, and a fraction or none. -/
def number : Scanner
  | '-' :: cs => (unsigned cs).map fun (l, rest) => ('-' :: l, rest)
  | cs => unsigned cs

/-- A character that ends the inside of a string when it stands unescaped. -/
def endsString (c : Char) : Bool :=
  c == '"' || c == '\\' || c == '\n' || c == '\r'

/-- The inside of a string: characters other than quotes, backslashes and line ends, and a backslash
with any character after it. -/
def stringInner : List Char → List Char × List Char
  | '\\' :: c :: cs =>
    let (l, rest) := stringInner cs
    ('\\' :: c :: l, rest)
  | c :: cs =>
    if endsString c then ([], c :: cs)
    else
      let (l, rest) := stringInner cs
      (c :: l, rest)
  | [] => ([], [])

/-- The further words of a dotted name, each after a point. The number bounds how many there are. -/
def dotted : Nat → List Char → List Char × List Char
  | bound + 1, '.' :: cs =>
    match word cs with
    | some (w, rest) =>
      let (l, rest) := dotted bound rest
      ('.' :: w ++ l, rest)
    | none => ([], '.' :: cs)
  | _, cs => ([], cs)

/-- The name of an attribute: words joined by points. -/
def attributeName : Scanner :=
  fun cs =>
    (word cs).map fun (w, rest) =>
      let (l, rest) := dotted rest.length rest
      (w ++ l, rest)

/-- What follows the end of a quoted string. A backslash takes the character after it along. -/
def closeQuote (quote : Char) : List Char → Option (List Char)
  | '\\' :: _ :: cs => closeQuote quote cs
  | c :: cs => if c = quote then some cs else closeQuote quote cs
  | [] => none

def closing? : Char → Option Char
  | '(' => some ')'
  | '[' => some ']'
  | _ => none

/-- What follows the pieces of a raw argument. Reading stops before a bracket or quote that is not
closed, and before a closing bracket. The number bounds the pieces. -/
def afterPieces : Nat → List Char → List Char
  | bound + 1, c :: cs =>
    if c = '"' ∨ c = '\'' then
      match closeQuote c cs with
      | some rest => afterPieces bound rest
      | none => c :: cs
    else
      match closing? c with
      | some close =>
        match afterPieces bound cs with
        | d :: rest => if d = close then afterPieces bound rest else c :: cs
        | [] => c :: cs
      | none => if c = ')' ∨ c = ']' then c :: cs else afterPieces bound cs
  | _, cs => cs

/-- The raw text of arguments, as far as its quotes and brackets close. A piece has at least one
character, so the length of the text bounds the pieces. -/
def rawArgument : Scanner :=
  fun cs =>
    let rest := afterPieces cs.length cs
    some (cs.take (cs.length - rest.length), rest)

end SchemaMigration.Grammar.Lexeme
