/-!
# Listings

Three-address code: a list of instructions, one a line. Lines that move control are typed,
so that the flow graph can be rebuilt from the **labels** and the **jump targets** of a
listing alone; all else is text.
-/

namespace ThreeAddress

/-- One line of three-address code. -/
inductive Instruction where
  | label (name : String)
  | goto (target : String)
  | ifGoto (condition target : String)
  /-- Binds the next element of a collection and jumps, or goes on after the last one. -/
  | foreach (iterable binding target : String)
  | text (line : String)
deriving DecidableEq, Repr, Inhabited

namespace Instruction

/-- The label that the instruction may jump to. -/
def jumpTarget? : Instruction → Option String
  | .goto target | .ifGoto _ target | .foreach _ _ target => some target
  | _ => none

/-- The label that the instruction defines. -/
def label? : Instruction → Option String
  | .label name => some name
  | _ => none

/-- The instruction as it is written. -/
def line : Instruction → String
  | .label name => name ++ ":"
  | .goto target => "goto " ++ target ++ ";"
  | .ifGoto condition target => "if (" ++ condition ++ ") goto " ++ target ++ ";"
  | .foreach iterable binding target =>
    "foreach (" ++ iterable ++ " as " ++ binding ++ ") goto " ++ target ++ ";"
  | .text line => line

end Instruction

/-- The instructions of one file, in order. -/
structure Listing where
  instructions : List Instruction
deriving DecidableEq, Repr, Inhabited

namespace Listing

/-- The number of instructions. -/
def size (l : Listing) : Nat :=
  l.instructions.length

/-- Whether there is no instruction. -/
def isEmpty (l : Listing) : Bool :=
  l.instructions.isEmpty

/-- The labels in the order of their definition. -/
def labels (l : Listing) : List String :=
  l.instructions.filterMap Instruction.label?

/-- The targets of all jumps in order. -/
def jumpTargets (l : Listing) : List String :=
  l.instructions.filterMap Instruction.jumpTarget?

/-- The written instructions. -/
def lines (l : Listing) : List String :=
  l.instructions.map Instruction.line

/-- The whole listing as one text. -/
def render (l : Listing) : String :=
  "\n".intercalate l.lines

end Listing

end ThreeAddress
