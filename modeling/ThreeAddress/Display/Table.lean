import ThreeAddress.Text.Width

/-!
# Tables

Rows of cells under a header. Every column is as wide as its widest line, and a cell with
several lines makes its whole row as high.
-/

namespace ThreeAddress.Display

/-- The lines of a text. -/
def linesOf : List Char → List (List Char)
  | [] => [[]]
  | c :: cs =>
    if c = '\n' then [] :: linesOf cs
    else
      match linesOf cs with
      | [] => [[c]]
      | l :: ls => (c :: l) :: ls

/-- A cell by its lines. -/
abbrev Cell := List String

/-- The cell that shows a text. -/
def Cell.ofText (s : String) : Cell :=
  (linesOf s.toList).map String.ofList

/-- The columns of a terminal that the cell needs. -/
def Cell.width (c : Cell) : Nat :=
  (c.map Text.width).foldl max 0

/-- The strokes of a horizontal rule. -/
structure Rule where
  left : String
  stroke : Char
  crossing : String
  right : String
deriving DecidableEq, Repr, Inhabited

namespace Rule

/-- The rule above the table. -/
def top : Rule := ⟨"┌", '─', "┬", "┐"⟩

/-- The rule under the header. -/
def underHeader : Rule := ⟨"╞", '═', "╪", "╡"⟩

/-- The rule between two rows. -/
def between : Rule := ⟨"├", '╌', "┼", "┤"⟩

/-- The rule under the table. -/
def bottom : Rule := ⟨"└", '─', "┴", "┘"⟩

/-- The rule over columns of the given widths, which have a blank on both sides. -/
def text (r : Rule) (widths : List Nat) : String :=
  let strokes := widths.map fun w => String.ofList (List.replicate (w + 2) r.stroke)
  r.left ++ r.crossing.intercalate strokes ++ r.right

end Rule

/-- A line of a cell, filled up to the width of its column. -/
def cellLine (c : Cell) (width i : Nat) : String :=
  let s := c.getD i ""
  " " ++ s ++ String.ofList (List.replicate (width - Text.width s) ' ') ++ " "

/-- The lines of a row. -/
def rowLines (widths : List Nat) (row : List Cell) : List String :=
  let height := (row.map List.length).foldl max 0
  (List.range height).map fun i =>
    "│" ++ "┆".intercalate (row.zipWith (fun c w => cellLine c w i) widths) ++ "│"

/-- The widths of the columns. -/
def columnWidths (rows : List (List Cell)) (header : List Cell) : List Nat :=
  rows.foldl (fun widths row => widths.zipWith (fun w c => max w c.width) row)
    (header.map Cell.width)

/-- The lines of a table. -/
def table (header : List String) (rows : List (List String)) : List String :=
  let header := header.map Cell.ofText
  let rows := rows.map (·.map Cell.ofText)
  let widths := columnWidths rows header
  let body := (rows.map (rowLines widths)).intersperse [Rule.between.text widths]
  [Rule.top.text widths] ++ rowLines widths header ++ [Rule.underHeader.text widths]
    ++ body.flatten ++ [Rule.bottom.text widths]

end ThreeAddress.Display
