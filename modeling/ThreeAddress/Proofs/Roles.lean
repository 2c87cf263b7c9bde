import ThreeAddress.Lowering.Script
import ThreeAddress.Proofs.Tree

/-!
# The roles of nodes

What a node becomes depends on where it stands: as a statement, as a value, as a name, or as
a part that only makes sense inside its parent, such as an argument or a case. `Kind.slots`
gives the role of every child of a kind, and `Planned.as` the plan of a node in a role, so
that **what a plan is made of can be said once for all kinds**.
-/

namespace ThreeAddress.Lowering

open Syntax (Node Kind)

/-- Where a node stands in its parent. -/
inductive Role where
  | statement
  | value
  /-- An expression whose value is dropped. -/
  | effect
  /-- A name of which the last segment counts. -/
  | name
  /-- A name with all its segments. -/
  | fullName
  /-- A member after an arrow or a double colon. -/
  | member
  /-- The name of a constant. -/
  | constant
  /-- What is instantiated: a class, or a class that is declared in place. -/
  | instantiated
  | argument
  | arrayItem
  | stringPart
  | param
  | closureUse
  | constItem
  | staticVar
  /-- A property under the given modifiers. -/
  | property (modifiers : List String)
  | useItem
  | caseClause
  | catchClause
deriving DecidableEq, Repr

/-- The fields of a kind that hold nodes, each with the role of the nodes in it. -/
@[simp] def slots {α : Type} : Kind α → List (Role × Syntax.Field α)
  | .script body => [(.statement, .nodes body)]
  | .interpolated parts => [(.stringPart, .nodes parts)]
  | .shellExec parts => [(.stringPart, .nodes parts)]
  | .variableVariable expr => [(.value, .node expr)]
  | .constFetch name => [(.constant, .node name)]
  | .classConstFetch owner name => [(.name, .node owner), (.member, .node name)]
  | .propertyFetch object property _ => [(.value, .node object), (.member, .node property)]
  | .staticPropertyFetch owner property => [(.name, .node owner), (.member, .node property)]
  | .arrayDimFetch base index => [(.value, .node base), (.value, .node? index)]
  | .assign target value => [(.value, .node target), (.value, .node value)]
  | .assignRef target value => [(.value, .node target), (.value, .node value)]
  | .assignOp _ target value => [(.value, .node target), (.value, .node value)]
  | .binaryOp left _ right => [(.value, .node left), (.value, .node right)]
  | .unaryOp _ expr => [(.value, .node expr)]
  | .cast _ expr => [(.value, .node expr)]
  | .ternary condition thenExpr elseExpr =>
    [(.value, .node condition), (.value, .node? thenExpr), (.value, .node elseExpr)]
  | .instanceOf expr owner => [(.value, .node expr), (.name, .node owner)]
  | .call callee args => [(.name, .node callee), (.argument, .nodes args)]
  | .methodCall object method args _ =>
    [(.value, .node object), (.member, .node method), (.argument, .nodes args)]
  | .staticCall owner method args =>
    [(.name, .node owner), (.member, .node method), (.argument, .nodes args)]
  | .argument value _ _ _ => [(.value, .node value)]
  | .new owner args => [(.instantiated, .node owner), (.argument, .nodes args)]
  | .array items => [(.arrayItem, .slots items)]
  | .list items => [(.arrayItem, .slots items)]
  | .arrayItem key value _ _ => [(.value, .node? key), (.value, .node value)]
  | .isset vars => [(.value, .nodes vars)]
  | .empty expr => [(.value, .node expr)]
  | .exit expr => [(.value, .node? expr)]
  | .eval expr => [(.value, .node expr)]
  | .clone expr => [(.value, .node expr)]
  | .print expr => [(.value, .node expr)]
  | .inclusion _ expr => [(.value, .node expr)]
  | .yield value => [(.value, .node? value)]
  | .yieldFrom expr => [(.value, .node expr)]
  | .closure params uses body _ _ _ =>
    [(.param, .nodes params), (.closureUse, .nodes uses), (.statement, .nodes body)]
  | .closureUse captured _ => [(.value, .node captured)]
  | .param _ default _ _ _ => [(.value, .node? default)]
  | .expressionStmt expr => [(.effect, .node expr)]
  | .echo exprs => [(.value, .nodes exprs)]
  | .returnStmt value => [(.value, .node? value)]
  | .block statements => [(.statement, .nodes statements)]
  | .ifElse condition thenBranch elseBranch =>
    [(.value, .node condition), (.statement, .nodes thenBranch),
     (.statement, .nodes? elseBranch)]
  | .whileLoop condition body => [(.value, .node condition), (.statement, .nodes body)]
  | .doWhile body condition => [(.statement, .nodes body), (.value, .node condition)]
  | .forLoop init conditions step body =>
    [(.effect, .nodes init), (.value, .nodes conditions), (.effect, .nodes step),
     (.statement, .nodes body)]
  | .foreachLoop iterable key value _ body =>
    [(.value, .node iterable), (.value, .node? key), (.value, .node value),
     (.statement, .nodes body)]
  | .switch subject cases => [(.value, .node subject), (.caseClause, .nodes cases)]
  | .caseClause test body => [(.value, .node? test), (.statement, .nodes body)]
  | .tryCatch body catches finalBody =>
    [(.statement, .nodes body), (.catchClause, .nodes catches), (.statement, .nodes? finalBody)]
  | .catchClause types caught body =>
    [(.name, .nodes types), (.value, .node? caught), (.statement, .nodes body)]
  | .throwStmt expr => [(.value, .node expr)]
  | .global vars => [(.value, .nodes vars)]
  | .staticStmt vars => [(.staticVar, .nodes vars)]
  | .staticVar declared default => [(.value, .node declared), (.value, .node? default)]
  | .unset vars => [(.value, .nodes vars)]
  | .constStmt items => [(.constItem, .nodes items)]
  | .constItem _ value => [(.value, .node value)]
  | .declare items => [(.constItem, .nodes items)]
  | .namespaceStmt name body => [(.fullName, .node? name), (.statement, .nodes? body)]
  | .useStmt _ group items => [(.fullName, .node? group), (.useItem, .nodes items)]
  | .useItem _ name _ => [(.fullName, .node name)]
  | .functionDecl _ params body _ => [(.param, .nodes params), (.statement, .nodes body)]
  | .classDecl _ _ parent interfaces members =>
    [(.fullName, .node? parent), (.fullName, .nodes interfaces), (.statement, .nodes members)]
  | .interfaceDecl _ parents members =>
    [(.fullName, .nodes parents), (.statement, .nodes members)]
  | .traitDecl _ members => [(.statement, .nodes members)]
  | .methodDecl _ _ params body _ => [(.param, .nodes params), (.statement, .nodes? body)]
  | .propertyDecl modifiers props => [(.property modifiers, .nodes props)]
  | .propertyItem _ default => [(.value, .node? default)]
  | .classConst _ items => [(.constItem, .nodes items)]
  | .traitUse traits => [(.fullName, .nodes traits)]
  | _ => []

/-- The children of a kind, each with its role. -/
def placed {α : Type} (k : Kind α) : List (Role × α) :=
  (slots k).flatMap fun x => x.2.children.map fun n => (x.1, n)

/-- The plan of a node in a role. -/
def Planned.as (n : Planned) : Role → Plan
  | .statement => n.code
  | .value => n.value
  | .effect => n.expressionCode
  | .name => n.name
  | .fullName => n.fullName
  | .member => n.member
  | .constant => constantName n
  | .instantiated => instantiation n []
  | .argument => argument n
  | .arrayItem => arrayItem n
  | .stringPart => stringPart n
  | .param => param n
  | .closureUse => closureUse n
  | .constItem => constItem n
  | .staticVar => staticVarPlan n
  | .property modifiers => property modifiers n
  | .useItem => useItemPlan n
  | .caseClause => casePlan n
  | .catchClause => catchPlan n

/-! ## Roles and children -/

variable {β : Type}

theorem slots_foldKind (f : Node → Kind β → β) (k : Kind Node) :
    slots (Node.foldKind f k) = (slots k).map fun x => (x.1, x.2.fold f) := by
  cases k <;> rfl

/-- A fold keeps every child in its role. -/
theorem placed_foldKind (f : Node → Kind β → β) (k : Kind Node) :
    placed (Node.foldKind f k) = (placed k).map fun x => (x.1, x.2.fold f) := by
  unfold placed
  rw [slots_foldKind, List.flatMap_map, List.map_flatMap]
  simp only [Syntax.Field.children_fold, List.map_map, Function.comp_def]

theorem flatMap_slots_children {α : Type} (k : Kind α) :
    (slots k).flatMap (fun x => x.2.children) = k.children := by
  cases k <;> rfl

/-- **Every child has a role**, and only children have one. -/
theorem map_snd_placed {α : Type} (k : Kind α) : (placed k).map Prod.snd = k.children := by
  rw [← flatMap_slots_children]
  unfold placed
  rw [List.map_flatMap]
  simp only [List.map_map, Function.comp_def, List.map_id']

end ThreeAddress.Lowering
