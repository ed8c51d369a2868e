import SchemaMigration.Toml.Scalar
import SchemaMigration.Toml.Text
import SchemaMigration.Toml.Value

/-! # Documents of TOML

The grammar of TOML: a document consists of entries and headers on lines of their own, with comments
and blank lines between. Reading gives the entries under every header, from which the tables are put
together. Values may be nested, and keys may have parts, up to a bound.
-/

namespace SchemaMigration.Toml

open Text (isLetter isDigit run)

/-- Reads a part of a document and gives what follows it. -/
abbrev Reader (α : Type) := List Char → Option (α × List Char)

/-- How deep values may be nested, and how many parts keys may have. -/
def nestingLimit : Nat :=
  79

/-- A text without blanks within a line at its front. -/
def dropBlanks (cs : List Char) : List Char :=
  cs.dropWhile isInlineBlank

def afterLineEnd? : List Char → Option (List Char)
  | '\n' :: cs => some cs
  | '\r' :: '\n' :: cs => some cs
  | _ => none

def afterComment : List Char → List Char
  | '#' :: cs => cs.dropWhile isPlain
  | cs => cs

/-- What follows the rest of a line that holds nothing more than a comment. -/
def endOfLine? (cs : List Char) : Option (List Char) :=
  let rest := afterComment (dropBlanks cs)
  if rest.isEmpty then some [] else afterLineEnd? rest

/-! ## Keys -/

def isKeyChar (c : Char) : Bool :=
  isLetter c || isDigit c || c == '_' || c == '-'

/-- One part of a key: a word, or a string on one line. -/
def simpleKey : Reader String
  | '"' :: cs => (basicInside cs).map fun (key, rest) => (String.ofList key, rest)
  | '\'' :: cs => (literalInside cs).map fun (key, rest) => (String.ofList key, rest)
  | cs => (run isKeyChar cs).map fun (key, rest) => (String.ofList key, rest)

/-- A key of at most so many parts, with points between them and blanks around each. -/
def dottedKey : Nat → Reader (List String)
  | 0, _ => none
  | bound + 1, cs => do
    let (key, rest) ← simpleKey (dropBlanks cs)
    match dropBlanks rest with
    | '.' :: rest =>
      let (keys, rest) ← dottedKey bound rest
      return (key :: keys, rest)
    | rest => return ([key], rest)

def key : Reader (List String) :=
  dottedKey nestingLimit

/-! ## Values -/

/-- A string, a number, a truth value or a time. -/
def atom : Reader Value
  | '"' :: cs => (string ('"' :: cs)).map fun (s, rest) => (.string (String.ofList s), rest)
  | '\'' :: cs => (string ('\'' :: cs)).map fun (s, rest) => (.string (String.ofList s), rest)
  | cs => (scalar cs).map fun rest => (.plain, rest)

/-- What follows blanks, comments and line ends. A comment must be ended by a line end. The number
bounds how many lines there are. -/
def skipLines : Nat → List Char → Option (List Char)
  | bound + 1, cs =>
    match dropBlanks cs with
    | '#' :: rest => (afterLineEnd? (rest.dropWhile isPlain)).bind (skipLines bound)
    | '\n' :: rest => skipLines bound rest
    | '\r' :: '\n' :: rest => skipLines bound rest
    | rest => some rest
  | 0, cs => some cs

def skipGap (cs : List Char) : Option (List Char) :=
  skipLines (cs.length + 1) cs

/-- The rest of an array, in which a comma may follow the last value. The number bounds how many
values there are. -/
def arrayRest (value : Reader Value) : Nat → Reader (List Value)
  | 0, _ => none
  | bound + 1, cs => do
    match ← skipGap cs with
    | ']' :: rest => return ([], rest)
    | rest =>
      let (first, rest) ← value rest
      match ← skipGap rest with
      | ',' :: rest =>
        let (values, rest) ← arrayRest value bound rest
        return (first :: values, rest)
      | ']' :: rest => return ([first], rest)
      | _ => none

/-- An entry: a key, an equals sign and a value. -/
def entry (value : Reader Value) : Reader (List String × Value) :=
  fun cs => do
    let (path, rest) ← key cs
    match rest with
    | '=' :: rest =>
      let (v, rest) ← value (dropBlanks rest)
      return ((path, v), rest)
    | _ => none

/-- The further entries of a table in braces, each after a comma. The number bounds how many there
are. -/
def inlineRest (value : Reader Value) : Nat → Reader (List (List String × Value))
  | 0, _ => none
  | bound + 1, cs => do
    let (first, rest) ← entry value cs
    match dropBlanks rest with
    | ',' :: rest =>
      let (entries, rest) ← inlineRest value bound rest
      return (first :: entries, rest)
    | '\x7d' :: rest => return ([first], rest)
    | _ => none

def inlineEntries (value : Reader Value) : Reader (List (List String × Value)) :=
  fun cs =>
    match dropBlanks cs with
    | '\x7d' :: rest => some ([], rest)
    | rest => inlineRest value rest.length rest

/-- A value that is nested at most so deep. -/
def value : Nat → Reader Value
  | 0 => atom
  | depth + 1 => fun cs =>
    match cs with
    | '[' :: rest => do
      let (values, rest) ← arrayRest (value depth) (rest.length + 1) rest
      return (.array values, rest)
    | '\x7b' :: rest => do
      let (entries, rest) ← inlineEntries (value depth) rest
      let table ← Table.putAll entries []
      return (.table .inline table, rest)
    | _ => atom cs

/-! ## Lines -/

/-- A line of a document. -/
inductive Line
  | blank
  | entry (path : List String) (value : Value)
  | header (isArray : Bool) (path : List String)

def contentLine : Reader Line
  | '[' :: '[' :: cs => do
    match ← key cs with
    | (path, ']' :: ']' :: rest) => return (.header true path, rest)
    | _ => none
  | '[' :: cs => do
    match ← key cs with
    | (path, ']' :: rest) => return (.header false path, rest)
    | _ => none
  | cs => do
    let ((path, v), rest) ← entry (value nestingLimit) cs
    return (.entry path v, rest)

def line (cs : List Char) : Option (Line × List Char) :=
  match endOfLine? cs with
  | some rest => some (.blank, rest)
  | none => do
    let (content, rest) ← contentLine (dropBlanks cs)
    let rest ← endOfLine? rest
    return (content, rest)

/-- The entries before the first header, and the sections after them. -/
abbrev Outline := List (List String × Value) × List Section

def Outline.withLine (rest : Outline) : Line → Outline
  | .blank => rest
  | .entry path value => ((path, value) :: rest.1, rest.2)
  | .header isArray path => ([], ⟨isArray, path, rest.1⟩ :: rest.2)

/-- The outline of a document. Every line has at least one character, which bounds their number. -/
def outline : Nat → List Char → Option Outline
  | _, [] => some ([], [])
  | 0, _ => none
  | bound + 1, cs => do
    let (content, rest) ← line cs
    return (← outline bound rest).withLine content

/-- A text without the mark of its byte order. -/
def withoutMark : List Char → List Char
  | c :: cs => if c.toNat = 0xFEFF then cs else c :: cs
  | [] => []

/-- The table of a document, when it is well-formed. -/
def document? (text : String) : Option Table := do
  let cs := withoutMark text.toList
  let (entries, sections) ← outline cs.length cs
  assemble entries sections

end SchemaMigration.Toml
