import ThreeAddress.Lowering.Plan
import ThreeAddress.Text.Literal

/-!
# Planned nodes

A syntax tree in which every node has a plan of its own. The plan leaves open where the node
stands; the functions here say what it becomes there: a value, a statement, a name. A node
in a place where its kind has no meaning is a failure.
-/

namespace ThreeAddress.Lowering

open Syntax (Node Kind BinaryOperator)

/-- A syntax node with its plan. -/
structure Planned where
  id : Nat
  kind : Kind Planned
  location : Option Location
  span : Option Span
  plan : Plan

namespace Planned

/-- The tag of a node. -/
def tag (n : Planned) : Tag :=
  ⟨n.id, n.kind.name, n.location, n.span⟩

/-- The failure that the node is no expression. -/
def notExpression (n : Planned) : Plan :=
  .fail (n.tag.error (.notExpression n.kind.name))

/-- The failure that the node is no statement. -/
def notStatement (n : Planned) : Plan :=
  .fail (n.tag.error (.notStatement n.kind.name))

/-- The node as a value. -/
def value (n : Planned) : Plan :=
  if n.kind.isExpression then .expression n.tag n.plan else n.notExpression

/-- The node as a statement. -/
def code (n : Planned) : Plan :=
  if n.kind.isStatement then .statement n.tag n.plan else n.notStatement

/-- An expression as a statement. An assignment adds no level here, a call leaves no line
for its bare temporary, and an empty value leaves none at all. -/
def expressionCode (n : Planned) : Plan :=
  match n.kind with
  | .assign .. | .assignRef .. => .guarded n.id (.line (n.plan ++ .text ";"))
  | .call .. | .methodCall .. | .staticCall .. => .effects n.value
  | _ => .valueLine n.value

/-- The node as a name: the last segment of a written name, or a value. -/
def name (n : Planned) : Plan :=
  match n.kind with
  | .identifier .. | .qualifiedName .. => .guarded n.id n.plan
  | _ => n.value

/-- A name with all its segments. -/
def nameText (parts : List String) (fullyQualified : Bool) : String :=
  (if fullyQualified then "\\" else "") ++ "\\".intercalate parts

/-- The node as a name with all its segments. -/
def fullName (n : Planned) : Plan :=
  match n.kind with
  | .qualifiedName parts fullyQualified =>
    .guarded n.id (.text (nameText parts fullyQualified))
  | _ => n.name

/-- The node as the name of a member; one that is looked up stands in braces. -/
def member (n : Planned) : Plan :=
  match n.kind with
  | .identifier .. | .qualifiedName .. | .var .. => n.name
  | _ => .text "\x7b" ++ n.name ++ .text "\x7d"

/-- Whether the node has to stand in parentheses on the given side of an operator. -/
def needsGroup (n : Planned) (outer : BinaryOperator) (onRight : Bool) : Bool :=
  match n.kind with
  | .binaryOp _ inner _ =>
    inner.precedence < outer.precedence
      || (inner.precedence == outer.precedence && onRight != outer.groupsRight)
  | .assign .. | .assignRef .. | .assignOp .. => true
  | .unaryOp op _ => outer == .pow && !onRight && !op.followsOperand
  | .cast .. => outer == .pow && !onRight
  | _ => false

/-- Whether the node has to stand in parentheses after a prefix operator or a cast. -/
def needsGroupUnderUnary (n : Planned) : Bool :=
  match n.kind with
  | .binaryOp .. | .assign .. | .assignRef .. | .assignOp .. | .instanceOf .. => true
  | _ => false

end Planned

end ThreeAddress.Lowering
