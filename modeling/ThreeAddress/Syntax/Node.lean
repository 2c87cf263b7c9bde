import ThreeAddress.Source.Location
import ThreeAddress.Syntax.Kind

/-!
# Syntax nodes

A syntax tree: every node has a number, a kind, which holds its children, and the place that
it comes from, unless it was made by hand. The number tells a node from any other, also from
one that looks the same.

All that is computed bottom-up from a tree is a `Node.fold`: it replaces the children of
every kind by their results and hands that to a function that looks at one node only.
-/

namespace ThreeAddress.Syntax

/-- A node of a syntax tree. -/
structure Node where
  id : Nat
  kind : Kind Node
  location : Option Location
  span : Option Span

namespace Node

instance : Inhabited Node :=
  ⟨⟨0, .nop, none, none⟩⟩

/-- The kind and the number of the node, and where it stands. -/
def text (n : Node) : String :=
  let here := n.kind.name ++ "#" ++ toString n.id
  match n.location with
  | some l => here ++ " at " ++ l.text
  | none => here

variable {β : Type}

mutual

/-- Computes a result for a node from the node and the results of its children. -/
def fold (f : Node → Kind β → β) : Node → β
  | ⟨id, kind, location, span⟩ => f ⟨id, kind, location, span⟩ (foldKind f kind)

/-- Replaces the children in a kind by their results. -/
def foldKind (f : Node → Kind β → β) : Kind Node → Kind β
  | .script body => .script (foldAll f body)
  | .identifier name => .identifier name
  | .qualifiedName parts fullyQualified => .qualifiedName parts fullyQualified
  | .integer value => .integer value
  | .float value => .float value
  | .string value => .string value
  | .interpolated parts => .interpolated (foldAll f parts)
  | .stringPart value => .stringPart value
  | .shellExec parts => .shellExec (foldAll f parts)
  | .magicConst name => .magicConst name
  | .var name => .var name
  | .variableVariable expr => .variableVariable (expr.fold f)
  | .constFetch name => .constFetch (name.fold f)
  | .classConstFetch owner name => .classConstFetch (owner.fold f) (name.fold f)
  | .propertyFetch object property nullsafe =>
    .propertyFetch (object.fold f) (property.fold f) nullsafe
  | .staticPropertyFetch owner property => .staticPropertyFetch (owner.fold f) (property.fold f)
  | .arrayDimFetch base index => .arrayDimFetch (base.fold f) (foldOption f index)
  | .assign target value => .assign (target.fold f) (value.fold f)
  | .assignRef target value => .assignRef (target.fold f) (value.fold f)
  | .assignOp op target value => .assignOp op (target.fold f) (value.fold f)
  | .binaryOp left op right => .binaryOp (left.fold f) op (right.fold f)
  | .unaryOp op expr => .unaryOp op (expr.fold f)
  | .cast type expr => .cast type (expr.fold f)
  | .ternary condition thenExpr elseExpr =>
    .ternary (condition.fold f) (foldOption f thenExpr) (elseExpr.fold f)
  | .instanceOf expr owner => .instanceOf (expr.fold f) (owner.fold f)
  | .call callee args => .call (callee.fold f) (foldAll f args)
  | .methodCall object method args nullsafe =>
    .methodCall (object.fold f) (method.fold f) (foldAll f args) nullsafe
  | .staticCall owner method args => .staticCall (owner.fold f) (method.fold f) (foldAll f args)
  | .argument value unpack byRef name => .argument (value.fold f) unpack byRef name
  | .new owner args => .new (owner.fold f) (foldAll f args)
  | .array items => .array (foldSlots f items)
  | .list items => .list (foldSlots f items)
  | .arrayItem key value byRef unpack => .arrayItem (foldOption f key) (value.fold f) byRef unpack
  | .isset vars => .isset (foldAll f vars)
  | .empty expr => .empty (expr.fold f)
  | .exit expr => .exit (foldOption f expr)
  | .eval expr => .eval (expr.fold f)
  | .clone expr => .clone (expr.fold f)
  | .print expr => .print (expr.fold f)
  | .inclusion way expr => .inclusion way (expr.fold f)
  | .yield value => .yield (foldOption f value)
  | .yieldFrom expr => .yieldFrom (expr.fold f)
  | .closure params uses body byRef isStatic arrow =>
    .closure (foldAll f params) (foldAll f uses) (foldAll f body) byRef isStatic arrow
  | .closureUse captured byRef => .closureUse (captured.fold f) byRef
  | .param name default byRef variadic typeHint =>
    .param name (foldOption f default) byRef variadic typeHint
  | .expressionStmt expr => .expressionStmt (expr.fold f)
  | .echo exprs => .echo (foldAll f exprs)
  | .returnStmt value => .returnStmt (foldOption f value)
  | .block statements => .block (foldAll f statements)
  | .ifElse condition thenBranch elseBranch =>
    .ifElse (condition.fold f) (foldAll f thenBranch) (foldBody f elseBranch)
  | .whileLoop condition body => .whileLoop (condition.fold f) (foldAll f body)
  | .doWhile body condition => .doWhile (foldAll f body) (condition.fold f)
  | .forLoop init conditions step body =>
    .forLoop (foldAll f init) (foldAll f conditions) (foldAll f step) (foldAll f body)
  | .foreachLoop iterable key value byRef body =>
    .foreachLoop (iterable.fold f) (foldOption f key) (value.fold f) byRef (foldAll f body)
  | .switch subject cases => .switch (subject.fold f) (foldAll f cases)
  | .caseClause test body => .caseClause (foldOption f test) (foldAll f body)
  | .breakStmt levels => .breakStmt levels
  | .continueStmt levels => .continueStmt levels
  | .tryCatch body catches finalBody =>
    .tryCatch (foldAll f body) (foldAll f catches) (foldBody f finalBody)
  | .catchClause types caught body =>
    .catchClause (foldAll f types) (foldOption f caught) (foldAll f body)
  | .throwStmt expr => .throwStmt (expr.fold f)
  | .global vars => .global (foldAll f vars)
  | .staticStmt vars => .staticStmt (foldAll f vars)
  | .staticVar declared default => .staticVar (declared.fold f) (foldOption f default)
  | .unset vars => .unset (foldAll f vars)
  | .constStmt items => .constStmt (foldAll f items)
  | .constItem name value => .constItem name (value.fold f)
  | .declare items => .declare (foldAll f items)
  | .namespaceStmt name body => .namespaceStmt (foldOption f name) (foldBody f body)
  | .useStmt kind group items => .useStmt kind (foldOption f group) (foldAll f items)
  | .useItem kind name rename => .useItem kind (name.fold f) rename
  | .goto target => .goto target
  | .label name => .label name
  | .inlineHtml value => .inlineHtml value
  | .nop => .nop
  | .functionDecl name params body byRef =>
    .functionDecl name (foldAll f params) (foldAll f body) byRef
  | .classDecl name modifiers parent interfaces members =>
    .classDecl name modifiers (foldOption f parent) (foldAll f interfaces) (foldAll f members)
  | .interfaceDecl name parents members =>
    .interfaceDecl name (foldAll f parents) (foldAll f members)
  | .traitDecl name members => .traitDecl name (foldAll f members)
  | .methodDecl name modifiers params body byRef =>
    .methodDecl name modifiers (foldAll f params) (foldBody f body) byRef
  | .propertyDecl modifiers props => .propertyDecl modifiers (foldAll f props)
  | .propertyItem name default => .propertyItem name (foldOption f default)
  | .classConst modifiers items => .classConst modifiers (foldAll f items)
  | .traitUse traits => .traitUse (foldAll f traits)

/-- The results of the nodes of a list. -/
def foldAll (f : Node → Kind β → β) : List Node → List β
  | [] => []
  | n :: ns => n.fold f :: foldAll f ns

/-- The result of a node that may be missing. -/
def foldOption (f : Node → Kind β → β) : Option Node → Option β
  | none => none
  | some n => some (n.fold f)

/-- The results of nodes some of which may be missing. -/
def foldSlots (f : Node → Kind β → β) : List (Option Node) → List (Option β)
  | [] => []
  | n :: ns => foldOption f n :: foldSlots f ns

/-- The results of a list of nodes that may be missing. -/
def foldBody (f : Node → Kind β → β) : Option (List Node) → Option (List β)
  | none => none
  | some ns => some (foldAll f ns)

end

end Node

end ThreeAddress.Syntax
