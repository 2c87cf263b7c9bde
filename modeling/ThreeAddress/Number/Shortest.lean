import ThreeAddress.Number.Double

/-!
# Shortest decimals

The decimal with the fewest digits among those that round to a given double. They fill an
interval around `m * 2 ^ q`: half a step up, half a step down, or a quarter where the
doubles below lie closer; its ends belong to it if `m` is even. On a grid of decimals with
a fixed number of digits, one of the **two neighbours** of the number lies in the interval
if any grid point does, so the grids are tried from the coarsest on.
-/

namespace ThreeAddress

/-- The decimal `digits * 10 ^ e`. -/
structure Decimal where
  digits : Nat
  e : Int
deriving DecidableEq, Repr, Inhabited

namespace Double

/-- The numbers that round to a double, as fractions with a common denominator. -/
structure Interval where
  low : Nat
  value : Nat
  high : Nat
  denominator : Nat
  closed : Bool

/-- The interval of a positive finite double. -/
def interval (x : Double) : Interval :=
  let m := x.mantissa
  let narrow := x.fraction = 0 ∧ 1 < x.exponent
  let (unit, denominator) := scaled 1 4 x.scale
  { low := (4 * m - if narrow then 1 else 2) * unit
    value := 4 * m * unit
    high := (4 * m + 2) * unit
    denominator := denominator
    closed := m % 2 = 0 }

/-- Whether `n * 10 ^ e` lies in the interval. -/
def Interval.contains (i : Interval) (d : Decimal) : Bool :=
  let (n, s) := if 0 ≤ d.e then (d.digits * Nat.pow 10 d.e.toNat * i.denominator, 1)
    else (d.digits * i.denominator, Nat.pow 10 (-d.e).toNat)
  let (low, high) := (i.low * s, i.high * s)
  if i.closed then low ≤ n && n ≤ high else low < n && n < high

/-- The neighbours of the interval's number on the grid of multiples of `10 ^ e`, and
whether the upper one is nearer or both are equally near. -/
def Interval.neighbours (i : Interval) (e : Int) : Nat × Nat × Bool :=
  let (n, d) := if 0 ≤ e then (i.value, i.denominator * Nat.pow 10 e.toNat)
    else (i.value * Nat.pow 10 (-e).toNat, i.denominator)
  let below := n / d
  let rest := n % d
  (below, below + 1, d ≤ 2 * rest)

/-- The decimal on the grid that rounds to the double, the nearer one of two. -/
def Interval.onGrid? (i : Interval) (e : Int) : Option Decimal :=
  let (below, above, up) := i.neighbours e
  match i.contains ⟨below, e⟩, i.contains ⟨above, e⟩ with
  | true, true => some ⟨if up then above else below, e⟩
  | true, false => some ⟨below, e⟩
  | false, true => some ⟨above, e⟩
  | false, false => none

/-- The first hit on the grids `10 ^ e`, `10 ^ (e - 1)`, …, at most so many of them. -/
def Interval.search (i : Interval) : Nat → Int → Decimal
  | 0, e => ⟨(i.neighbours e).1, e⟩
  | grids + 1, e =>
    match i.onGrid? e with
    | some d => d
    | none => i.search grids (e - 1)

/-- The exponent of the number's first decimal digit, or one more. -/
def Interval.magnitude (i : Interval) : Int :=
  let digits (n : Nat) : Int := (Nat.toDigits 10 n).length
  if i.denominator ≤ i.value then digits (i.value / i.denominator) - 1
  else -(digits (i.denominator / i.value) : Int) + 1

/-- The shortest decimal that rounds to a positive finite double. -/
def shortest (x : Double) : Decimal :=
  x.interval.search 20 (x.interval.magnitude + 1)

end Double

end ThreeAddress
