import ThreeAddress.Lowering.Run
import ThreeAddress.Lowering.Statement

/-!
# Lowering scripts

The whole way: every node of a syntax tree gets its plan from the planned nodes inside it,
the plan of the root is run in a fresh context, and the instructions make a listing.
-/

namespace ThreeAddress.Lowering

open Syntax (Node Kind)

/-- The plan of a node of the given kind; `t` is its tag. -/
def kindPlan (t : Tag) (k : Kind Planned) : Plan :=
  if k.isExpression then expressionPlan t k
  else if k.isDeclaration then declarationPlan k
  else statementPlan k

/-- The node with its plan, and likewise all nodes inside it. -/
def planned (n : Node) : Planned :=
  n.fold fun n k => ⟨n.id, k, n.location, n.span, kindPlan (tagOf n) k⟩

/-- The token of a binary operation or of an assignment with an operation. -/
def operatorToken (n : Node) : Except LoweringError String :=
  match n.kind with
  | .binaryOp _ op _ => return op.token
  | .assignOp op _ _ =>
    match op.assignToken? with
    | some token => return token
    | none => throw ((tagOf n).error (.noToken op.name))
  | k => throw ((tagOf n).error (.noToken k.name))

/-- Lowers a whole script. -/
def lowerScript (n : Node) : Lower Listing := do
  let a ← (planned n).code.run
  Lower.tell (.script (tagOf n) a.effects.length)
  return ⟨a.effects⟩

/-- The listing of a syntax tree, and what happened on the way to it. -/
def listingWithEvents (n : Node) (o : Options) : Except LoweringError Listing × List Event :=
  let (listing, c) := (lowerScript n).run { options := o }
  (listing, c.events.reverse)

/-- The listing of a syntax tree. -/
def listing (n : Node) (o : Options) : Except LoweringError Listing :=
  (listingWithEvents n o).1

end ThreeAddress.Lowering
