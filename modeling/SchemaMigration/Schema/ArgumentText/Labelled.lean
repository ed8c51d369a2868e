import SchemaMigration.Schema.ArgumentText.Piece

/-! # Labelled arguments

An argument with a label, such as `name: "posts"` or `fields: [id]`, may stand anywhere among the
arguments of an attribute. Extracting one takes its first occurrence out of the raw text and leaves
the text around it, which is then searched for the next. A label is only recognised where no word
character stands before it.
-/

namespace SchemaMigration.ArgumentText

open Text (Scanner after? isSpace isWordChar word)

/-- A form of argument: what it recognises at the front of a text, given whether a word character
stands before. The value of the argument is the part that a form gives. -/
abbrev Form := Bool → Scanner

/-- A text without its first occurrence of a form, and the value found there. -/
def extractAfter (form : Form) : Bool → List Char → Option (List Char × List Char)
  | _, [] => none
  | inWord, c :: cs =>
    (form inWord (c :: cs)).or <|
      (extractAfter form (isWordChar c) cs).map fun (value, rest) => (value, c :: rest)

/-- The value of the first occurrence of a form in a text, and the text without it. -/
def extract (form : Form) (cs : List Char) : Option (List Char × List Char) :=
  extractAfter form false cs

/-- A label, a colon, and a value, with blanks around the colon. -/
def labelled (label : String) (value : Scanner) : Form :=
  fun inWord cs =>
    if inWord then none
    else
      (after? label.toList cs).bind fun rest =>
        (after? [':'] (rest.dropWhile isSpace)).bind fun rest => value (rest.dropWhile isSpace)

/-- The inside of a string in double quotes, up to the first quote that is not escaped, and the text
after that quote. A backslash does not escape a line feed. -/
def insideString : Scanner
  | '"' :: cs => some ([], cs)
  | '\\' :: c :: cs =>
    if c = '\n' then none
    else (insideString cs).map fun (inner, rest) => ('\\' :: c :: inner, rest)
  | c :: cs =>
    if c = '\\' then none else (insideString cs).map fun (inner, rest) => (c :: inner, rest)
  | [] => none

/-- A string in double quotes. Its value is the inside, as written. -/
def quotedString : Scanner
  | '"' :: cs => insideString cs
  | _ => none

/-- What stands in a pair of brackets. The first closing bracket ends it. -/
def bracketed : Scanner
  | '[' :: cs =>
    match cs.dropWhile (· != ']') with
    | _ :: rest => some (cs.takeWhile (· != ']'), rest)
    | [] => none
  | _ => none

/-- The form of a name: `name: "…"`. -/
def nameForm : Form :=
  labelled "name" quotedString

/-- The form of a labelled list: `fields: […]` or `references: […]`. -/
def listForm (label : String) : Form :=
  labelled label bracketed

/-- The form of a list of fields, where the label may be left out. -/
def fieldsForm : Form :=
  fun inWord cs => (listForm "fields" inWord cs).or (bracketed cs)

/-- The form of a referential action: `onDelete: Cascade`. -/
def actionForm (label : String) : Form :=
  labelled label word

/-- A form's first value in a text, if it occurs, and the text that is left. -/
def extractOptional (form : Form) (cs : List Char) : Option (List Char) × List Char :=
  match extract form cs with
  | some (value, rest) => (some value, rest)
  | none => (none, cs)

end SchemaMigration.ArgumentText
