import ThreeAddress.Number.Shortest

/-!
# Layouts of doubles

How a double is written once its shortest digits are known: positionally while the first
digit counts between `10 ^ (-4)` and `10 ^ 15`, always with a point, and with an exponent
outside of that. A `Layout` holds what differs between the two forms in use.
-/

namespace ThreeAddress.Double

/-- The choices of a written form. -/
structure Layout where
  /-- What stands before the exponent. -/
  mark : String
  /-- The sign of an exponent that is not negative. -/
  plus : String
  /-- What follows a single digit before an exponent. -/
  lone : String
  infinity : String
  nan : String

/-- The form of a constant in a listing. -/
def Layout.listing : Layout :=
  ⟨"E", "+", ".0", "INF", "NAN"⟩

/-- The form of a constant in the dump of a syntax tree. -/
def Layout.dump : Layout :=
  ⟨"e", "", "", "inf", "NaN"⟩

/-- A decimal written positionally, with at least one digit on both sides of the point. -/
def positional (d : Decimal) : String :=
  let ds := Nat.toDigits 10 d.digits
  if 0 ≤ d.e then String.ofList (ds ++ List.replicate d.e.toNat '0') ++ ".0"
  else
    let places := (-d.e).toNat
    let padded := List.replicate (places + 1 - ds.length) '0' ++ ds
    let cut := padded.length - places
    String.ofList (padded.take cut ++ '.' :: padded.drop cut)

/-- A decimal written with one digit before the point and an exponent. -/
def Layout.scientific (l : Layout) (d : Decimal) (exponent : Int) : String :=
  let sign := if 0 ≤ exponent then l.plus else ""
  match Nat.toDigits 10 d.digits with
  | [c] => c.toString ++ l.lone ++ l.mark ++ sign ++ toString exponent
  | c :: cs => c.toString ++ "." ++ String.ofList cs ++ l.mark ++ sign ++ toString exponent
  | [] => ""

/-- The text of a double without its sign. -/
def Layout.magnitude (l : Layout) (x : Double) : String :=
  if x.isInfinite then l.infinity
  else if x.mantissa = 0 then "0.0"
  else
    let d := x.shortest
    let exponent := d.e + (Nat.toDigits 10 d.digits).length - 1
    if -4 ≤ exponent ∧ exponent ≤ 15 then positional d else l.scientific d exponent

/-- The text of a double. -/
def Layout.text (l : Layout) (x : Double) : String :=
  if x.isNaN then l.nan
  else if x.isNegative then "-" ++ l.magnitude x
  else l.magnitude x

end ThreeAddress.Double
