import ThreeAddress.Lowering.Context

/-!
# Plans

What is to be written for a node, before temporaries and labels are chosen. A plan gives a
**value**, which is text, and the instructions that have to run before the value can be
used; the plan of a statement has instructions only.

There are few ways to put plans together, far fewer than kinds of nodes: what holds of them
holds of all lowering.
-/

namespace ThreeAddress.Lowering

/-- A plan of what is to be written. -/
inductive Plan where
  /-- Nothing at all. -/
  | nothing
  /-- The first and then the second; their values are joined. -/
  | both (p q : Plan)
  /-- A fixed text. -/
  | text (s : String)
  /-- Nothing, but a node counts as met. -/
  | mark (id : Nat)
  /-- The plan of a node that adds no level, unless the node was met before. -/
  | guarded (id : Nat) (p : Plan)
  /-- The plan of an expression, one level down, unless the node was met before. -/
  | expression (t : Tag) (p : Plan)
  /-- The plan of a statement, one level down, unless the node was met before. -/
  | statement (t : Tag) (p : Plan)
  /-- A failure. -/
  | fail (e : LoweringError)
  /-- A value with text around it, or nothing if the value is empty. -/
  | unlessEmpty (before : String) (p : Plan) (after : String)
  /-- A value without the blanks around its equals signs. -/
  | compact (p : Plan)
  /-- A value that is shown before another one and comes after it otherwise. -/
  | shownBefore (p q : Plan)
  /-- A fresh temporary that is assigned the value. -/
  | bind (p : Plan)
  /-- A value followed by braces, which hold the instructions of the value and those of a
  body that no jump leaves. -/
  | closed (header body : Plan)
  /-- The instructions without the value. -/
  | effects (p : Plan)
  /-- The value as a line. -/
  | line (p : Plan)
  /-- The value as a line that ends with a semicolon, or nothing if the value is empty. -/
  | valueLine (p : Plan)
  /-- A fixed instruction. -/
  | emit (i : Instruction)
  /-- A jump out of loops and switches. -/
  | jump (j : Jump) (levels : Option Nat)
  /-- The break at the end of a switch case, unless cases run into each other. -/
  | closeCase
  | ifThen (condition thenBranch : Plan)
  | ifThenElse (condition thenBranch elseBranch : Plan)
  | whileLoop (condition body : Plan)
  | doWhile (body condition : Plan)
  /-- A condition that leaves the enclosing loop if it does not hold. -/
  | barrier (condition : Plan)
  /-- A loop that goes through its barriers and a last test before each round. -/
  | forLoop (init barriers test step body : Plan)
  /-- A loop without a test. -/
  | endless (init step body : Plan)
  | foreachLoop (iterable binding body : Plan)
  /-- What stands inside a switch. -/
  | inSwitch (p : Plan)
  /-- What stands inside a function or a class, which no jump leaves. -/
  | apart (p : Plan)
  /-- A declaration, which is told of when it is done. -/
  | declared (kind : String) (p : Plan)
deriving Inhabited

namespace Plan

instance : Append Plan :=
  ⟨both⟩

instance : Coe String Plan :=
  ⟨text⟩

/-- One plan after the other. -/
def all : List Plan → Plan
  | [] => nothing
  | p :: ps => p ++ all ps

/-- Values divided by a text. -/
def joined (divider : String) : List Plan → Plan
  | [] => nothing
  | [p] => p
  | p :: q :: ps => p ++ text divider ++ joined divider (q :: ps)

/-- Text if a condition holds. -/
def textIf (b : Bool) (s : String) : Plan :=
  if b then text s else nothing

/-- A plan that may be missing. -/
def ofOption : Option Plan → Plan
  | some p => p
  | none => nothing

/-- A value with text before it, which may be missing. -/
def optionAfter (before : String) : Option Plan → Plan
  | some p => text before ++ p
  | none => nothing

/-- A value between parentheses if a condition holds. -/
def groupedIf (b : Bool) (p : Plan) : Plan :=
  if b then text "(" ++ p ++ text ")" else p

/-- A header with a block of lines between braces. -/
def braced (header body : Plan) : Plan :=
  line (header ++ text " \x7b") ++ body ++ line (text "\x7d")

end Plan

end ThreeAddress.Lowering
