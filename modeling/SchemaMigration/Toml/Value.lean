/-! # Values of TOML

The values of a TOML document, and how its entries and headers build the tables. Of plain values
only strings are kept; numbers, truth values and times are not told apart. A table remembers how it
came about, since that decides what may be added to it later: a table under its own header and a
table in braces are complete, a table that only occurred within a longer header may still get its
header, and a table made by dotted keys may get further dotted keys.
-/

namespace SchemaMigration.Toml

/-- How a table came about. -/
inductive TableKind
  | explicit
  | implied
  | dotted
  | inline
  deriving DecidableEq, Repr

/-- A value. An array of tables is one made by headers. -/
inductive Value
  | string (value : String)
  | plain
  | array (values : List Value)
  | table (kind : TableKind) (entries : List (String × Value))
  | tables (tables : List (List (String × Value)))
  deriving Repr, Inhabited

/-- A table: keys with values, every key once, in the order of their first occurrence. -/
abbrev Table := List (String × Value)

namespace Table

/-- A table with another value for a key, which is new or already there. -/
def set (t : Table) (key : String) (value : Value) : Table :=
  if t.any fun entry => entry.1 == key then
    t.map fun entry => if entry.1 == key then (key, value) else entry
  else t ++ [(key, value)]

def changeLast (change : Table → Option Table) : List Table → Option (List Table)
  | [] => none
  | [t] => (change t).map fun t => [t]
  | t :: ts => (changeLast change ts).map fun ts => t :: ts

/-- A table with a value at a dotted key. The key must be new, and all tables on the way new or not
complete. The last of them is the table itself or one made by dotted keys; the flag tells whether
the table at hand is. -/
def put (value : Value) : Bool → List String → Table → Option Table
  | _, [], _ => none
  | isOpen, [key], t =>
    if isOpen && (t.lookup key).isNone then some (t ++ [(key, value)]) else none
  | _, key :: path, t =>
    match t.lookup key with
    | none => (put value true path []).map fun sub => t ++ [(key, .table .dotted sub)]
    | some (.table .dotted sub) =>
      (put value true path sub).map fun sub => set t key (.table .dotted sub)
    | some (.table .implied sub) =>
      (put value false path sub).map fun sub => set t key (.table .implied sub)
    | some (.tables ts) =>
      (changeLast (put value false path) ts).map fun ts => set t key (.tables ts)
    | some _ => none

/-- A table with several values at dotted keys, in order. -/
def putAll (entries : List (List String × Value)) (t : Table) : Option Table :=
  entries.foldlM (fun t entry => put entry.2 true entry.1 t) t

/-- A table in which the table at a path is changed. Tables on the way that are missing are implied;
of an array of tables the last one is meant. -/
def changeAt (change : Table → Option Table) : List String → Table → Option Table
  | [], t => change t
  | key :: path, t =>
    match t.lookup key with
    | none => (changeAt change path []).map fun sub => t ++ [(key, .table .implied sub)]
    | some (.tables ts) =>
      (changeLast (changeAt change path) ts).map fun ts => set t key (.tables ts)
    | some (.table kind sub) =>
      if kind = .inline then none
      else (changeAt change path sub).map fun sub => set t key (.table kind sub)
    | some _ => none

/-- A table with the entries of a header for a key. Only a table that was implied may be there. -/
def openTable (entries : List (List String × Value)) (key : String) (t : Table) : Option Table :=
  match t.lookup key with
  | none => (putAll entries []).map fun sub => t ++ [(key, .table .explicit sub)]
  | some (.table .implied sub) =>
    (putAll entries sub).map fun sub => set t key (.table .explicit sub)
  | some _ => none

/-- A table with the entries of a header for one more table of an array. -/
def appendTable (entries : List (List String × Value)) (key : String) (t : Table) :
    Option Table :=
  match t.lookup key with
  | none => (putAll entries []).map fun sub => t ++ [(key, .tables [sub])]
  | some (.tables ts) => (putAll entries []).map fun sub => set t key (.tables (ts ++ [sub]))
  | some _ => none

end Table

/-- A header and the entries under it. -/
structure Section where
  isArray : Bool
  path : List String
  entries : List (List String × Value)
  deriving Repr

def Section.addTo (s : Section) (t : Table) : Option Table :=
  match s.path.reverse with
  | [] => none
  | key :: parents =>
    let change :=
      if s.isArray then Table.appendTable s.entries key else Table.openTable s.entries key
    Table.changeAt change parents.reverse t

/-- The table of a document: the entries before the first header, and then the sections. -/
def assemble (entries : List (List String × Value)) (sections : List Section) : Option Table := do
  let root ← Table.putAll entries []
  sections.foldlM (fun t s => s.addTo t) root

end SchemaMigration.Toml
