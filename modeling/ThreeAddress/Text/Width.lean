import ThreeAddress.Text.Columns

/-!
# The width of a text

How many columns of a terminal a text takes: the sum over its characters, but a picture that
is put together from several characters takes two columns, and so does a narrow picture that
is asked to be shown in colour.
-/

namespace ThreeAddress.Text

/-- The columns of a character by itself. -/
def columns (c : Char) : Nat :=
  if columnless.contains c then 0
  else if wide.contains c then 2
  else 1

/-- What was read just before a character, as far as the character's width depends on it. -/
inductive Preceding where
  | plain
  | narrowPicture
  | widePicture
  /-- A picture and the sign that joins it to the next one. -/
  | joined
deriving DecidableEq, Repr, Inhabited

/-- Asks for the character before it to be shown in colour. -/
def colourSign : Char := '\ufe0f'

/-- Joins the pictures on its two sides. -/
def joiner : Char := '\u200d'

/-- Whether a character changes the tone of the picture before it. -/
def isTone (c : Char) : Bool :=
  0x1F3FB ≤ c.toNat && c.toNat ≤ 0x1F3FF

/-- What a character is to the next one. -/
def Preceding.ofChar (c : Char) : Preceding :=
  if narrowPictures.contains c then .narrowPicture
  else if widePictures.contains c then .widePicture
  else .plain

/-- The columns of the rest of a text. -/
def widthAfter : Preceding → List Char → Nat
  | _, [] => 0
  | _, '\r' :: '\n' :: rest => 1 + widthAfter .plain rest
  | before, c :: rest =>
    if before = .narrowPicture && (c = colourSign || isTone c) then 1 + widthAfter .widePicture rest
    else if before = .widePicture && (c = colourSign || isTone c) then widthAfter .widePicture rest
    else if before = .widePicture && c = joiner then widthAfter .joined rest
    else if before = .joined && Preceding.ofChar c ≠ .plain then widthAfter .widePicture rest
    else columns c + widthAfter (.ofChar c) rest

/-- The columns of a text. -/
def width (s : String) : Nat :=
  widthAfter .plain s.toList

end ThreeAddress.Text
