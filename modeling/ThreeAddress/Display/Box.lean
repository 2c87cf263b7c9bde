import ThreeAddress.Text.Control
import ThreeAddress.Text.Width

/-!
# Boxes

Lines of text between borders. A box has a total width; lines that are shorter are filled up
with blanks, and longer ones reach out of the box.
-/

namespace ThreeAddress.Display

/-- A text filled up with blanks to the given width. Control sequences take no place. -/
def padTo (width : Nat) (s : String) : String :=
  s ++ String.ofList (List.replicate (width - Text.width (Text.withoutControls s)) ' ')

/-- A part of a box. -/
inductive BoxItem where
  | top
  | bottom
  | line (text : String)
deriving DecidableEq, Repr, Inhabited

/-- The width that a box of the given total width has for text: a border and a blank go off
on both sides. -/
def innerWidth (total : Nat) : Nat :=
  total - 4

/-- A border between two corners. -/
def border (total : Nat) (left right : Char) : String :=
  String.ofList (left :: List.replicate (innerWidth total + 2) '─' ++ [right])

/-- A part of a box of the given total width. -/
def BoxItem.text (total : Nat) : BoxItem → String
  | .top => border total '┌' '┐'
  | .bottom => border total '└' '┘'
  | .line s => "│ " ++ padTo (innerWidth total) s ++ " │"

/-- A box of the given total width, a line for each part. -/
def box (total : Nat) (items : List BoxItem) : List String :=
  items.map (BoxItem.text total)

end ThreeAddress.Display
