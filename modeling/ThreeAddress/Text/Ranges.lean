/-!
# Ranges of characters

A class of characters as a list of ranges of code points, both ends included.
-/

namespace ThreeAddress.Text

/-- Ranges of code points, both ends included. -/
abbrev Ranges := List (Nat × Nat)

/-- Whether the character lies in one of the ranges. -/
def Ranges.contains (rs : Ranges) (c : Char) : Bool :=
  rs.any fun (first, last) => first ≤ c.toNat && c.toNat ≤ last

end ThreeAddress.Text
