import ThreeAddress.Number.Double
import ThreeAddress.Text.Literal

/-!
# Number literals

The value of an integer or float literal. Underscores between digits say nothing. An
integer of `2 ^ 63` or more becomes the nearest double, and one of `2 ^ 128` or more is
refused, as is an octal literal with the digit 8 or 9.
-/

namespace ThreeAddress.Number

/-- The value of a number literal. -/
inductive Value where
  | integer (n : Int)
  | float (x : Double)
deriving DecidableEq, Repr

/-- The number that digits of a base spell; `none` without digits and for a character that
is no digit of the base. -/
def digitsValue? (base : Nat) : List Char → Option Nat
  | [] => none
  | cs => cs.foldlM (fun n c => do
      let v ← Text.hexValue? c
      if v < base then some (n * base + v) else none) 0

/-- Without the underscores between the digits. -/
def withoutMarks (cs : List Char) : List Char :=
  cs.filter (· != '_')

/-- The base of an integer literal and its digits. -/
def baseAndDigits : List Char → Nat × List Char
  | '0' :: 'x' :: ds => (16, ds)
  | '0' :: 'b' :: ds => (2, ds)
  | '0' :: 'o' :: ds => (8, ds)
  | '0' :: d :: ds => (8, d :: ds)
  | ds => (10, ds)

/-- The value of an integer literal, which may have a minus in front. -/
def ofInteger? (text : String) : Option Value :=
  match (withoutMarks text.toList).map Char.toLower with
  | '-' :: ds => do
    let n ← digitsValue? 10 ds
    if n ≤ Nat.pow 2 63 then some (.integer (-n)) else none
  | cs => do
    let (base, ds) := baseAndDigits cs
    let n ← digitsValue? base ds
    if n < Nat.pow 2 63 then some (.integer n)
    else if n < Nat.pow 2 128 then some (.float (.ofNat n))
    else none

/-- The double nearest to `digits * 10 ^ e`. Far outside of the range of doubles the power
is not computed: the result is infinite or zero there. -/
def decimalDouble (digits : Nat) (e : Int) : Double :=
  let size := (Nat.toDigits 10 digits).length + e
  if digits = 0 ∨ size < -330 then .ofNat 0
  else if 330 < size then .infinity
  else .ofDecimal digits e

/-- The value of a float literal: digits with a point or an exponent or both. -/
def ofFloat? (text : String) : Option Double :=
  let cs := withoutMarks text.toList
  let whole := cs.takeWhile Char.isDigit
  let (places, afterPlaces) := afterPoint (cs.dropWhile Char.isDigit)
  match digitsValue? 10 (whole ++ places), exponent? afterPlaces with
  | some digits, some e => some (decimalDouble digits (e - places.length))
  | _, _ => none
where
  /-- The digits after a point, if there is one, and what follows them. -/
  afterPoint : List Char → List Char × List Char
    | '.' :: r => (r.takeWhile Char.isDigit, r.dropWhile Char.isDigit)
    | r => ([], r)
  /-- The exponent that the rest of a literal gives. -/
  exponent? : List Char → Option Int
    | [] => some 0
    | mark :: r =>
      if mark = 'e' ∨ mark = 'E' then
        match r with
        | '-' :: ds => (digitsValue? 10 ds).map fun n => -(n : Int)
        | '+' :: ds => (digitsValue? 10 ds).map fun n => (n : Int)
        | ds => (digitsValue? 10 ds).map fun n => (n : Int)
      else none

/-- The number of loops that a jump leaves: decimal digits alone, from 1 below `2 ^ 32`. -/
def loopDepth? (text : String) : Option Nat :=
  (digitsValue? 10 text.toList).filter fun n => 0 < n && n < Nat.pow 2 32

end ThreeAddress.Number
