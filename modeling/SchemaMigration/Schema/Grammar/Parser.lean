import SchemaMigration.Schema.Document
import SchemaMigration.Schema.Grammar.Symbol
import SchemaMigration.Text.Position
import SchemaMigration.Text.Scan

/-! # Parsers that remember where they failed

A parser reads from a cursor, which is the rest of the text and its byte offset, and either gives a
value and the cursor after it or fails. Alternatives are tried in order and the first that succeeds
is final. Beside the result a parser hands on a trail: the furthest offset at which a symbol of the
grammar failed to match, and the symbols that failed there. When the whole text is refused, the
trail says where and what was expected. The trail never influences a result.
-/

namespace SchemaMigration.Grammar

open Text (byteLength)

/-- The rest of a text and the byte offset at which it starts. -/
structure Cursor where
  rest : List Char
  offset : Nat
  deriving DecidableEq, Repr

def Cursor.start (text : List Char) : Cursor :=
  ⟨text, 0⟩

/-- The furthest offset at which a symbol failed, and the symbols that failed there, in order. -/
structure Trail where
  furthest : Nat := 0
  expected : List Symbol := []
  deriving DecidableEq, Repr

namespace Trail

/-- How many symbols are known to have failed at an offset. -/
def countAt (t : Trail) (offset : Nat) : Nat :=
  if offset = t.furthest then t.expected.length else 0

/-- The trail after a symbol that was entered with the trail `before` failed and its parts left the
trail `after`. When exactly one part failed where the symbol itself starts, that part describes the
failure; otherwise the symbol takes the place of its parts. -/
def blame (before after : Trail) (symbol : Symbol) (offset : Nat) : Trail :=
  if after.countAt offset = before.countAt offset + 1 then after
  else if offset = after.furthest then
    { after with expected := after.expected.take (before.countAt offset) ++ [symbol] }
  else if after.furthest < offset then ⟨offset, [symbol]⟩
  else after

end Trail

/-- A parser gives a value and the cursor after it, or fails, and hands on the trail. -/
def Parser (α : Type) : Type :=
  Cursor → Trail → Option (α × Cursor) × Trail

namespace Parser

variable {α β : Type}

instance : Monad Parser where
  pure a := fun c t => (some (a, c), t)
  bind p f := fun c t =>
    match p c t with
    | (some (a, c), t) => f a c t
    | (none, t) => (none, t)

/-- A parser that fails without a trace. -/
def fail : Parser α :=
  fun _ t => (none, t)

/-- A parser for a symbol of the grammar, whose failure is put on the trail. -/
def symbol (s : Symbol) (p : Parser α) : Parser α :=
  fun c t =>
    match p c t with
    | (some r, after) => (some r, after)
    | (none, after) => (none, t.blame after s c.offset)

/-- The first parser, or the second where the first fails. -/
def orElse (p q : Parser α) : Parser α :=
  fun c t =>
    match p c t with
    | (some r, t) => (some r, t)
    | (none, t) => q c t

def first : List (Parser α) → Parser α
  | [] => fail
  | p :: ps => orElse p (first ps)

def optional (p : Parser α) : Parser (Option α) :=
  fun c t =>
    match p c t with
    | (some (a, c), t) => (some (some a, c), t)
    | (none, t) => (some (none, c), t)

/-- The lexeme that a scanner recognises, with its range. -/
def lexeme (scan : Text.Scanner) : Parser Ident :=
  fun c t =>
    match scan c.rest with
    | some (l, rest) =>
      let stop := c.offset + byteLength l
      (some (⟨String.ofList l, ⟨c.offset, stop⟩⟩, ⟨rest, stop⟩), t)
    | none => (none, t)

def exactly (text : String) : Parser Unit := do
  let _ ← lexeme fun cs => (Text.after? text.toList cs).map fun rest => (text.toList, rest)

/-- Succeeds without reading when the next character is not the given one. -/
def notNext (char : Char) : Parser Unit :=
  fun c t => if c.rest.head? = some char then (none, t) else (some ((), c), t)

def atEnd : Parser Unit :=
  fun c t => if c.rest.isEmpty then (some ((), c), t) else (none, t)

def located (p : Parser α) : Parser (α × Span) :=
  fun c t =>
    match p c t with
    | (some (a, c'), t) => (some ((a, ⟨c.offset, c'.offset⟩), c'), t)
    | (none, t) => (none, t)

/-- A blank of the schema language: space, tab, line feed or carriage return. -/
def isGap (c : Char) : Bool :=
  c == ' ' || c == '\t' || c == '\n' || c == '\r'

def isLineEnd (c : Char) : Bool :=
  c == '\n' || c == '\r'

/-- The cursor after blanks and comments, from within a comment or not. A comment starts with two
slashes and ends at the end of its line. -/
def skip : Bool → Nat → List Char → Cursor
  | true, offset, c :: cs => skip (!isLineEnd c) (offset + c.utf8Size) cs
  | false, offset, '/' :: '/' :: cs => skip true (offset + 2) cs
  | false, offset, c :: cs =>
    if isGap c then skip false (offset + c.utf8Size) cs else ⟨c :: cs, offset⟩
  | _, offset, [] => ⟨[], offset⟩

/-- Blanks and comments, of which there may be none. -/
def gap : Parser Unit :=
  fun c t => (some ((), skip false c.offset c.rest), t)

/-- As many further items as there are, each after a gap. A gap without an item after it is not
read. The number bounds how many are looked for. -/
def further (p : Parser α) : Nat → Cursor → Trail → (List α × Cursor) × Trail
  | 0, c, t => (([], c), t)
  | bound + 1, c, t =>
    match (gap >>= fun _ => p) c t with
    | (some (a, c'), t) =>
      let ((as, c''), t) := further p bound c' t
      ((a :: as, c''), t)
    | (none, t) => (([], c), t)

/-- As many items as there are, with gaps between them. Every item has at least one character, so
there are no more items than characters. -/
def many (p : Parser α) : Parser (List α) :=
  fun c t =>
    match p c t with
    | (some (a, c'), t) =>
      let ((as, c''), t) := further p (c'.rest.length + 1) c' t
      (some (a :: as, c''), t)
    | (none, t) => (some ([], c), t)

end Parser

end SchemaMigration.Grammar
