import ThreeAddress.Source.Cursor

/-!
# Extents

A stretch of a text between two places of it, with the characters that stand there and the
location and span that it has in a file.
-/

namespace ThreeAddress

/-- The stretch from `start` up to, not including, `stop`. -/
structure Extent where
  start : Cursor
  stop : Cursor
deriving Repr, Inhabited

namespace Extent

/-- The characters of the stretch. -/
def chars (e : Extent) : List Char :=
  e.start.textTo e.stop

/-- The text of the stretch. -/
def text (e : Extent) : String :=
  String.ofList e.chars

/-- Where the stretch starts. -/
def location (e : Extent) (file : String) : Location :=
  e.start.location file

/-- The span of the stretch. -/
def span (e : Extent) (file : String) : Span :=
  e.start.spanTo e.stop file

end Extent

end ThreeAddress
