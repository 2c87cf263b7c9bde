import ThreeAddress.Source.Location

/-!
# Cursors

A cursor is a place in a text: the characters still to be read, and how far reading
has come. Lines end at a line feed and nowhere else, and **columns count characters**,
so a carriage return or an accented letter takes one column.

`Cursor.spanTo` finds the end of a matched text from its start and its characters
alone, without going back to the whole text.
-/

namespace ThreeAddress

/-- A place in a text. `index` counts the characters already read. -/
structure Cursor where
  rest : List Char
  index : Nat
  line : Nat
  column : Nat
deriving Repr, Inhabited

namespace Cursor

/-- The beginning of a text. -/
def ofText (text : String) : Cursor :=
  ⟨text.toList, 0, 1, 1⟩

/-- The place after the character `c`, with `rest` left to read. -/
def past (k : Cursor) (c : Char) (rest : List Char) : Cursor :=
  if c = '\n' then ⟨rest, k.index + 1, k.line + 1, 1⟩
  else ⟨rest, k.index + 1, k.line, k.column + 1⟩

/-- Reads one character that satisfies `p`. -/
def one? (p : Char → Bool) (k : Cursor) : Option Cursor :=
  match k.rest with
  | c :: rest => if p c then some (k.past c rest) else none
  | [] => none

/-- Reads the given characters, compared by `same`. -/
def all? (same : Char → Char → Bool) : List Char → Cursor → Option Cursor
  | [], k => some k
  | c :: cs, k => (k.one? (same c)).bind (all? same cs)

/-- The place after `n` more characters, or the end of the text. -/
def forward : Nat → Cursor → Cursor
  | 0, k => k
  | n + 1, k =>
    match k.rest with
    | c :: rest => forward n (k.past c rest)
    | [] => k

/-- The characters between two places of one text. -/
def textTo (start stop : Cursor) : List Char :=
  start.rest.take (stop.index - start.index)

/-- The place as a location in the file. -/
def location (k : Cursor) (file : String) : Location :=
  ⟨file, k.line, k.column⟩

/-- Line and column after reading `text` from the given line and column. The line grows
by the line feeds in the text, and the column counts what follows the last of them. -/
def endOf (line column : Nat) (text : List Char) : Nat × Nat :=
  if text.contains '\n' then
    (line + text.count '\n', (text.reverse.takeWhile (· != '\n')).length + 1)
  else (line, column + text.length)

/-- The span of the text between two places. -/
def spanTo (start stop : Cursor) (file : String) : Span :=
  let (line, column) := endOf start.line start.column (start.textTo stop)
  ⟨start.location file, ⟨file, line, column⟩⟩

end Cursor

end ThreeAddress
