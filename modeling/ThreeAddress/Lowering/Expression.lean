import ThreeAddress.Lowering.Declaration
import ThreeAddress.Number.Layout

/-!
# Plans of expressions

The value of an expression is text in which the values of its parts stand in the order of
the source. **Only calls need a temporary**; an include is a line of its own and has no
value.
-/

namespace ThreeAddress.Lowering

open Syntax (Kind BinaryOperator UnaryOperator)
open Plan

/-- The values of nodes, divided by commas. -/
def valueList (ns : List Planned) : Plan :=
  joined ", " (ns.map Planned.value)

/-- The parts of an interpolated string. A plain variable stands as it is, any other
expression in braces. -/
def stringPart (n : Planned) : Plan :=
  match n.kind with
  | .stringPart value => mark n.id ++ text (Text.escapeFragment value)
  | .var .. => n.value
  | _ => text "\x7b" ++ n.value ++ text "\x7d"

/-- An interpolated string between quotes. -/
def interpolation (quote : String) (parts : List Planned) : Plan :=
  text quote ++ all (parts.map stringPart) ++ text quote

/-- An item of an array. -/
def arrayItem (n : Planned) : Plan :=
  match n.kind with
  | .arrayItem key value byRef unpack =>
    mark n.id ++ unlessEmpty "" (ofOption (key.map Planned.value)) " => "
      ++ textIf unpack "..." ++ textIf byRef "&" ++ value.value
  | _ => n.value

/-- The items of an array, divided by commas; a skipped position is empty. -/
def arrayItems (items : List (Option Planned)) : Plan :=
  joined ", " (items.map fun n => ofOption (n.map arrayItem))

/-- The text of a constant. -/
def constantName (n : Planned) : Plan :=
  mark n.id ++ match n.kind with
    | .qualifiedName parts fullyQualified => text (Planned.nameText parts fullyQualified)
    | .identifier name => text name
    | _ => n.notExpression

/-- An operation on two values. -/
def binary (left : Planned) (op : BinaryOperator) (right : Planned) : Plan :=
  groupedIf (left.needsGroup op false) left.value ++ text (" " ++ op.token ++ " ")
    ++ groupedIf (right.needsGroup op true) right.value

/-- The operand of a prefix operator, a postfix operator or a cast. -/
def unaryOperand (n : Planned) : Plan :=
  groupedIf n.needsGroupUnderUnary n.value

/-- An operation on one value. -/
def unary (op : UnaryOperator) (n : Planned) : Plan :=
  if op.followsOperand then unaryOperand n ++ text op.token
  else text op.token ++ unaryOperand n

/-- A conditional value. -/
def conditional (condition : Planned) (thenExpr : Option Planned) (elseExpr : Planned) : Plan :=
  match thenExpr with
  | some thenExpr =>
    text "(" ++ condition.value ++ text " ? " ++ thenExpr.value ++ text " : "
      ++ elseExpr.value ++ text ")"
  | none => text "(" ++ condition.value ++ text " ?: " ++ elseExpr.value ++ text ")"

/-- A variable whose name is a value. -/
def variableVariable (n : Planned) : Plan :=
  match n.kind with
  | .var .. | .variableVariable .. => text "$" ++ n.value
  | _ => text "$\x7b" ++ n.value ++ text "\x7d"

/-- The arrow before a member of an object. -/
def arrow (nullsafe : Bool) : String :=
  if nullsafe then "?->" else "->"

/-- An instantiation. -/
def instantiation (owner : Planned) (args : List Planned) : Plan :=
  match owner.kind with
  | .classDecl .. => anonymousClass owner args
  | _ => text "new " ++ owner.name ++ text "(" ++ arguments args ++ text ")"

/-- The plan of an expression; `t` is its tag. -/
def expressionPlan (t : Tag) : Kind Planned → Plan
  | .identifier name => text name
  | .qualifiedName parts _ => text (parts.getLast?.getD "")
  | .integer value => text (toString value)
  | .float value => text (Double.Layout.listing.text value)
  | .string value => text (Text.literal value)
  | .magicConst name => text name
  | .interpolated parts => interpolation "\"" parts
  | .shellExec parts => interpolation "`" parts
  | .var name => text ("$" ++ name)
  | .variableVariable expr => variableVariable expr
  | .constFetch name => constantName name
  | .classConstFetch owner name => owner.name ++ text "::" ++ name.member
  | .propertyFetch object property nullsafe =>
    object.value ++ text (arrow nullsafe) ++ property.member
  | .staticPropertyFetch owner property => owner.name ++ text "::" ++ property.member
  | .arrayDimFetch base index =>
    base.value ++ text "[" ++ ofOption (index.map Planned.value) ++ text "]"
  | .assign target value => target.value ++ text " = " ++ value.value
  | .assignRef target value => target.value ++ text " = &" ++ value.value
  | .assignOp op target value =>
    match op.assignToken? with
    | some token => target.value ++ text (" " ++ token ++ " ") ++ value.value
    | none => fail (t.error (.noToken op.name))
  | .binaryOp left op right => binary left op right
  | .unaryOp op expr => unary op expr
  | .cast type expr => text (type.token ++ " ") ++ unaryOperand expr
  | .ternary condition thenExpr elseExpr => conditional condition thenExpr elseExpr
  | .instanceOf expr owner => expr.value ++ text " instanceof " ++ owner.name
  | .call callee args => bind (callee.name ++ text "(" ++ arguments args ++ text ")")
  | .methodCall object method args nullsafe =>
    bind (object.value ++ text (arrow nullsafe) ++ method.member ++ text "("
      ++ arguments args ++ text ")")
  | .staticCall owner method args =>
    bind (owner.name ++ text "::" ++ method.member ++ text "(" ++ arguments args ++ text ")")
  | .new owner args => instantiation owner args
  | .array items => text "[" ++ arrayItems items ++ text "]"
  | .list items => text "list(" ++ arrayItems items ++ text ")"
  | .isset vars => text "isset(" ++ valueList vars ++ text ")"
  | .empty expr => text "empty(" ++ expr.value ++ text ")"
  | .exit (some expr) => text "exit(" ++ expr.value ++ text ")"
  | .exit none => text "exit"
  | .eval expr => text "eval(" ++ expr.value ++ text ")"
  | .clone expr => text "clone " ++ expr.value
  | .print expr => text "print " ++ expr.value
  | .yield (some value) => text "yield " ++ value.value
  | .yield none => text "yield"
  | .yieldFrom expr => text "yield from " ++ expr.value
  | .inclusion way expr => line (text (way.keyword ++ " ") ++ expr.value ++ text ";")
  | .closure params uses body byRef isStatic arrow =>
    closure params uses body byRef isStatic arrow
  | _ => nothing

end ThreeAddress.Lowering
