import SchemaMigration.Files.Path

/-! # Directory trees

A tree of directories and files as a value. A place in it is a list of names from the root down; the
root is always a directory. Following a path needs a directory before every further part, so a
parent part does not undo a part that is missing. What a tree holds is changed by writing and
removing files and by creating directories. A directory that was created on the way to another one
stays, even if that one cannot be created.
-/

namespace SchemaMigration.Files

open Text (byteLength)

/-- What a file holds: a text, or bytes that are none. -/
inductive Content
  | text (value : String)
  | binary
  deriving DecidableEq, Repr

/-- The content that bytes are: a text, if they are one in UTF-8. -/
def Content.ofBytes (bytes : List UInt8) : Content :=
  match String.fromUTF8? ⟨bytes.toArray⟩ with
  | some value => .text value
  | none => .binary

/-- What is at a place. -/
inductive Entry
  | directory
  | file (content : Content)
  deriving DecidableEq, Repr

/-- Why a place cannot be reached or used. -/
inductive Fault
  | missing
  | notADirectory
  | notAFile
  | notAText
  | badName
  deriving DecidableEq, Repr

/-- A place in a tree, as the names that lead there from the root. -/
abbrev Place := List String

/-- A tree: what is at each place other than the root, in the order of creation. -/
structure Tree where
  entries : List (Place × Entry) := []
  deriving DecidableEq, Repr, Inhabited

namespace Tree

def get? (t : Tree) (place : Place) : Option Entry :=
  if place = [] then some .directory else t.entries.lookup place

def set (t : Tree) (place : Place) (entry : Entry) : Tree :=
  if t.entries.any fun e => e.1 == place then
    ⟨t.entries.map fun e => if e.1 == place then (place, entry) else e⟩
  else ⟨t.entries ++ [(place, entry)]⟩

/-- Whether a part of a path can be a name: it has at most 255 bytes. -/
def isName (part : String) : Bool :=
  byteLength part.toList ≤ 255

/-- The place that a part of a path leads to. The place before must be a directory. -/
def follow (t : Tree) (here : Place) (part : String) : Except Fault Place :=
  match t.get? here with
  | none => .error .missing
  | some (.file _) => .error .notADirectory
  | some .directory =>
    if part = "" ∨ part = "." then .ok here
    else if part = ".." then .ok here.dropLast
    else if isName part then .ok (here ++ [part])
    else .error .badName

/-- The place that a path leads to, which may itself be missing. -/
def locate (t : Tree) (p : Path) : Except Fault Place :=
  if p.isUsable then p.parts.foldlM t.follow [] else .error .badName

/-- Whether there is something at the end of a path. A path that leads through a file is a fault. -/
def contains (t : Tree) (p : Path) : Except Fault Bool :=
  match t.locate p with
  | .ok place => .ok (t.get? place).isSome
  | .error .missing => .ok false
  | .error fault => .error fault

def readText (t : Tree) (p : Path) : Except Fault String := do
  match t.get? (← t.locate p) with
  | some (.file (.text value)) => return value
  | some (.file .binary) => throw .notAText
  | some .directory => throw .notAFile
  | none => throw .missing

def write (t : Tree) (p : Path) (content : Content) : Except Fault Tree := do
  let place ← t.locate p
  if t.get? place = some .directory then throw .notAFile
  return t.set place (.file content)

def remove (t : Tree) (p : Path) : Except Fault Tree := do
  let place ← t.locate p
  match t.get? place with
  | some (.file _) => return ⟨t.entries.filter fun e => e.1 != place⟩
  | some .directory => throw .notAFile
  | none => throw .missing

/-- Follows parts from a place and creates every directory that is missing on the way, up to the
first part that cannot be followed. -/
def createAlong (t : Tree) (here : Place) : List String → Except Fault Place × Tree
  | [] => (.ok here, t)
  | part :: rest =>
    match t.follow here part with
    | .error fault => (.error fault, t)
    | .ok place =>
      match t.get? place with
      | none => (t.set place .directory).createAlong place rest
      | some _ => t.createAlong place rest

/-- A tree with a directory at a place, if there is no file. -/
def ensureDirectory (t : Tree) (place : Place) : Except Fault Tree :=
  match t.get? place with
  | none => .ok (t.set place .directory)
  | some .directory => .ok t
  | some (.file _) => .error .notADirectory

/-- Creates every directory on a path that is missing. What stands after the last step of the path
needs the directory that it stays at, so that is not created for it. -/
def createDirectories (t : Tree) (p : Path) : Except Fault Unit × Tree :=
  if p.isUsable then
    match t.createAlong [] p.steps.dropLast with
    | (.error fault, t) => (.error fault, t)
    | (.ok here, t) =>
      match p.arrival.foldlM t.follow here >>= t.ensureDirectory with
      | .error fault => (.error fault, t)
      | .ok t => (.ok (), t)
  else (.error .badName, t)

/-- Writes a file anew, in a directory that is created if it is missing. -/
def put (t : Tree) (p : Path) (content : Content) : Except Fault Unit × Tree :=
  match t.createDirectories p.parent with
  | (.error fault, t) => (.error fault, t)
  | (.ok (), t) =>
    match t.write p content with
    | .error fault => (.error fault, t)
    | .ok t => (.ok (), t)

/-- The names of the files in a directory, in the order of their creation. -/
def files (t : Tree) (p : Path) : Except Fault (List String) := do
  let place ← t.locate p
  match t.get? place with
  | some .directory =>
    return t.entries.filterMap fun
      | (file, .file _) => if file.dropLast = place then file.getLast? else none
      | _ => none
  | some (.file _) => throw .notADirectory
  | none => throw .missing

end Tree

end SchemaMigration.Files
