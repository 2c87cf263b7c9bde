/-!
# Locations and spans

Where a piece of source text stands: a `Location` is a line and a column in a named
file, both counted from one, and a `Span` runs from its start up to, not including,
its end. Their text forms are the ones that every diagnostic shows.
-/

namespace ThreeAddress

/-- A line and a column, both from one, in a named file. -/
structure Location where
  file : String
  line : Nat
  column : Nat
deriving DecidableEq, Repr, Inhabited

/-- The range of source text from `start` up to, not including, `stop`. -/
structure Span where
  start : Location
  stop : Location
deriving DecidableEq, Repr, Inhabited

/-- `file:line:column`. -/
def Location.text (l : Location) : String :=
  l.file ++ ":" ++ toString l.line ++ ":" ++ toString l.column

namespace Span

/-- Whether both ends are on one line. -/
def isSingleLine (s : Span) : Bool :=
  s.start.line == s.stop.line

/-- The start, with the end's column alone where both ends are on one line. -/
def text (s : Span) : String :=
  if s.isSingleLine then s.start.text ++ "-" ++ toString s.stop.column
  else s.start.text ++ " - " ++ s.stop.text

/-- The span of a single place. -/
def empty (l : Location) : Span :=
  ⟨l, l⟩

/-- From the start of the first to the end of the last. -/
def join (first last : Span) : Span :=
  ⟨first.start, last.stop⟩

/-- `join` where either span may be missing. -/
def join? : Option Span → Option Span → Option Span
  | some a, some b => some (a.join b)
  | some a, none => some a
  | none, b => b

end Span

end ThreeAddress
