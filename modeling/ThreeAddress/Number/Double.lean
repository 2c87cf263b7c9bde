/-!
# Double precision numbers

A double as its 64 bits: a sign, 11 bits of exponent and 52 of fraction. A finite one is
`m * 2 ^ q` for natural `m` and an integer `q`, which is how everything here computes with
it, **exactly and in natural numbers**. `Double.ofRatio` rounds a fraction to the nearest
double, ties to the even one, and gives infinity from the overflow threshold on.
-/

namespace ThreeAddress

/-- A double precision number, given by its bits. -/
structure Double where
  bits : UInt64
deriving DecidableEq, Repr, Inhabited

namespace Double

/-- The bits below the exponent. -/
def fraction (x : Double) : Nat :=
  x.bits.toNat % Nat.pow 2 52

/-- The eleven bits of the exponent. -/
def exponent (x : Double) : Nat :=
  x.bits.toNat / Nat.pow 2 52 % Nat.pow 2 11

/-- Whether the sign bit is set. -/
def isNegative (x : Double) : Bool :=
  Nat.pow 2 63 ≤ x.bits.toNat

/-- Whether the number is an infinity. -/
def isInfinite (x : Double) : Bool :=
  x.exponent == 2047 && x.fraction == 0

/-- Whether the bits stand for no number. -/
def isNaN (x : Double) : Bool :=
  x.exponent == 2047 && x.fraction != 0

/-- The `m` of `m * 2 ^ q`. -/
def mantissa (x : Double) : Nat :=
  if x.exponent = 0 then x.fraction else x.fraction + Nat.pow 2 52

/-- The `q` of `m * 2 ^ q`. -/
def scale (x : Double) : Int :=
  if x.exponent = 0 then -1074 else (x.exponent : Int) - 1075

/-- The double with the given exponent and fraction bits; a fraction of `2 ^ 52` carries
into the exponent. -/
def ofFields (exponent fraction : Nat) : Double :=
  ⟨UInt64.ofNat (exponent * Nat.pow 2 52 + fraction)⟩

/-- Positive infinity. -/
def infinity : Double :=
  ofFields 2047 0

/-- A quotient rounded to the nearest natural number, a half to the even one. -/
def roundDiv (n d : Nat) : Nat :=
  let q := n / d
  let r := n % d
  if 2 * r < d ∨ (2 * r = d ∧ q % 2 = 0) then q else q + 1

/-- Multiplies by a power of two with an integer exponent: a numerator and a denominator. -/
def scaled (n d : Nat) (q : Int) : Nat × Nat :=
  if 0 ≤ q then (n * Nat.pow 2 q.toNat, d) else (n, d * Nat.pow 2 (-q).toNat)

/-- The scale at which the quotient `n / d` has 53 bits before the point, or the smallest
scale there is. -/
def scaleFor (n d : Nat) : Int :=
  let guess : Int := (n.log2 : Int) - (d.log2 : Int) - 52
  let (a, b) := scaled n d (-guess)
  let q := if a < b * Nat.pow 2 52 then guess - 1 else guess
  max q (-1074)

/-- The double nearest to `n / d`. -/
def ofRatio (n d : Nat) : Double :=
  if n = 0 then ofFields 0 0
  else
    let q := scaleFor n d
    let (a, b) := scaled n d (-q)
    let m := roundDiv a b
    if m < Nat.pow 2 52 then ofFields 0 m
    else
      let x := (q + 1075).toNat * Nat.pow 2 52 + (m - Nat.pow 2 52)
      if x < 2047 * Nat.pow 2 52 then ⟨UInt64.ofNat x⟩ else infinity

/-- The double nearest to a natural number. -/
def ofNat (n : Nat) : Double :=
  ofRatio n 1

/-- The double nearest to `digits * 10 ^ e`. -/
def ofDecimal (digits : Nat) (e : Int) : Double :=
  if 0 ≤ e then ofRatio (digits * Nat.pow 10 e.toNat) 1
  else ofRatio digits (Nat.pow 10 (-e).toNat)

end Double

end ThreeAddress
