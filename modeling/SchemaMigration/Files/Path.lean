import SchemaMigration.Text.Position

/-! # Paths

A path is kept as it is written, its parts separated by slashes. A part that is empty or a single
point stays at the place where it is met; two points lead to the directory above; any other part is
a name. The last name is that of a file; what stands after its last point is its extension, except
that a point at the very beginning belongs to the name.
-/

namespace SchemaMigration.Files

/-- A path as written. -/
structure Path where
  text : String
  deriving DecidableEq, Repr, Inhabited

namespace Path

/-- Whether a path can be followed at all: it has fewer than 4096 bytes, none of them zero. -/
def isUsable (p : Path) : Bool :=
  Text.byteLength p.text.toList < 4096 && p.text.toList.all fun c => c.toNat != 0

/-- A path that goes on from a directory. One that starts with a slash stands for itself. -/
def join (directory : Path) (rest : String) : Path :=
  if rest.toList.head? = some '/' then ⟨rest⟩
  else if directory.text.isEmpty ∨ directory.text.toList.getLast? = some '/' then
    ⟨directory.text ++ rest⟩
  else ⟨directory.text ++ "/" ++ rest⟩

def cut : List Char → List (List Char)
  | [] => [[]]
  | c :: cs =>
    if c = '/' then [] :: cut cs
    else
      match cut cs with
      | part :: parts => (c :: part) :: parts
      | [] => [[c]]

/-- The parts of a path, some of which may be empty. -/
def parts (p : Path) : List String :=
  (cut p.text.toList).map String.ofList

/-- Whether a part of a path stays at the place where it is met. -/
def stays (part : String) : Bool :=
  part == "" || part == "."

def steps (p : Path) : List String :=
  p.parts.filter fun part => !stays part

/-- Parts without the longest run at their end whose members stay. -/
def trimmed (parts : List String) : List String :=
  (parts.reverse.dropWhile stays).reverse

/-- The path to what holds the last step of a path. -/
def parent (p : Path) : Path :=
  ⟨"/".intercalate (trimmed (trimmed p.parts).dropLast)⟩

/-- The parts of a path from its last step on, but for empty ones at its end. -/
def arrival (p : Path) : List String :=
  let parts := p.parts.reverse.dropWhile (· == "")
  ((parts.dropWhile stays).take 1) ++ (parts.takeWhile stays).reverse

/-- The name of the file that a path leads to: its last step, unless that leads to a directory
above. -/
def fileName? (p : Path) : Option String :=
  match p.steps.getLast? with
  | some name => if name = ".." then none else some name
  | none => none

/-- What stands before and after the last point of a name, unless nothing stands before it. -/
def splitExtension? (name : List Char) : Option (List Char × List Char) :=
  match name.reverse.dropWhile (· != '.') with
  | _ :: c :: stem => some ((c :: stem).reverse, (name.reverse.takeWhile (· != '.')).reverse)
  | _ => none

def stem? (p : Path) : Option String :=
  p.fileName?.map fun name =>
    match splitExtension? name.toList with
    | some (stem, _) => String.ofList stem
    | none => name

def extension? (p : Path) : Option String :=
  p.fileName?.bind fun name => (splitExtension? name.toList).map fun split => String.ofList split.2

end Path

end SchemaMigration.Files
