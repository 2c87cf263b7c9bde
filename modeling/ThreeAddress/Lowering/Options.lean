/-!
# Lowering options

What a user can choose about the lowering of a script.
-/

namespace ThreeAddress.Lowering

/-- The choices for lowering a script. -/
structure Options where
  /-- Lets a switch case run into the next one, instead of closing every case by a break. -/
  switchFallthrough : Bool := false
  /-- The deepest nesting of statements and expressions that is accepted. -/
  maxDepth : Nat := 256
deriving DecidableEq, Repr, Inhabited

/-- The greatest size that can be asked for. -/
def Options.largestStack : Nat :=
  Nat.pow 2 64 - 1

/-- The bytes of stack to reserve: eight mebibytes, and an eighth of one for every level of
nesting that is accepted. -/
def Options.stackSize (o : Options) : Nat :=
  min largestStack (8 * Nat.pow 2 20 + min largestStack (o.maxDepth * Nat.pow 2 17))

end ThreeAddress.Lowering
