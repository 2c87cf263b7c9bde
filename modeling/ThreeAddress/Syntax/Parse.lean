import ThreeAddress.Grammar.Match
import ThreeAddress.Grammar.Nesting
import ThreeAddress.Source.Script
import ThreeAddress.Syntax.Expression
import ThreeAddress.Syntax.Statement

/-!
# Parsing

From the text of a script to its syntax tree, in three steps: the grammar is matched, the
nesting is checked, and the nodes are built. `buildRule` says for every rule how its node is
built from the parts inside it; a rule that stands for no node is never asked for one.
-/

namespace ThreeAddress.Syntax

open Build

/-- The node of a rule, from the trees inside it. -/
def buildRule (r : Grammar.Rule) (e : Extent) (children : List Part) : Build Node :=
  let ps := children.filter (!·.rule.isKeyword)
  let list : Build (List Node) := buildAll .expr (ps.filter (·.rule == .expr))
  match r with
  -- names and text
  | .identifier => nodeAt e (.identifier e.text)
  | .qualifiedName | .groupPrefix => nameNode e
  | .variableName => nodeAt e (.var (String.ofList (e.chars.dropWhile (· == '$'))))
  | .inlineHtml => nodeAt e (.inlineHtml e.text)
  | .quotedText | .heredocText | .backtickText => nodeAt e (.stringPart e.text)
  -- expressions
  | .expr => expressionNode e children
  | .operand => operandNode e ps
  | .parenExpr | .braceInterp => buildFirst .expr e ps
  | .braceExpr | .memberName => memberNameNode e ps
  | .classRef => classRefNode e ps
  | .varVar => variableVariableNode e ps
  | .closure => closureNode e false children
  | .arrowFn => closureNode e true children
  | .closureUse => closureUseNode e ps
  | .newExpr => newNode e ps
  | .dynamicClass => dynamicClassNode e ps
  | .issetExpr => do nodeAt e (.isset (← buildAll .expr ps))
  | .emptyExpr => do nodeAt e (.empty (← buildFirst .expr e ps))
  | .exitExpr => do nodeAt e (.exit (← buildOption .expr ps.head?))
  | .evalExpr => do nodeAt e (.eval (← buildFirst .expr e ps))
  | .listExpr => do nodeAt e (.list (← arrayItemsIn e ps))
  | .arrayLong | .arrayLiteral => do nodeAt e (.array (← arrayItemsIn e ps))
  | .arrayItem => arrayItemNode e ps
  | .argument => argumentNode e ps
  | .magicConst => nodeAt e (.magicConst e.text)
  | .float => floatNode e
  | .integer => integerNode e
  | .stringSingle => singleQuotedNode e
  | .stringDouble | .heredoc => doubleQuotedNode e ps
  | .nowdoc => nodeAt e (.string ((partOf? .nowdocText ps).elim "" (·.text)))
  | .shellExec => do nodeAt e (.shellExec (← stringParts ps))
  | .simpleInterp => simpleInterpolationNode e ps
  -- statements
  | .script => scriptNode e ps
  | .statement => statementNode e ps
  | .ifStmt => ifNode e ps
  | .whileStmt => whileNode e ps
  | .doStmt => doWhileNode e ps
  | .forStmt => forNode e ps
  | .foreachStmt => foreachNode e ps
  | .switchStmt => switchNode e ps
  | .caseClause => caseNode e children ps
  | .tryStmt => tryNode e ps
  | .catchClause => catchNode e ps
  | .expressionStmt => do nodeAt e (.expressionStmt (← buildFirst .expr e ps))
  | .echoStmt => do nodeAt e (.echo (← list))
  | .returnStmt => do nodeAt e (.returnStmt (← buildOption .expr ps.head?))
  | .breakStmt => do nodeAt e (.breakStmt (← jumpLevels e ps))
  | .continueStmt => do nodeAt e (.continueStmt (← jumpLevels e ps))
  | .globalStmt => do nodeAt e (.global (← buildAll .variableName ps))
  | .staticStmt => do nodeAt e (.staticStmt (← buildAll .staticItem ps))
  | .staticItem => staticVarNode e ps
  | .unsetStmt => do nodeAt e (.unset (← list))
  | .throwStmt => do nodeAt e (.throwStmt (← buildFirst .expr e ps))
  | .namespaceStmt => namespaceNode e ps
  | .useStmt => useNode e ps
  | .useItem | .useGroupItem => useItemNode e ps
  | .constStmt => do nodeAt e (.constStmt (← constItems ps))
  | .declareStmt => do nodeAt e (.declare (← constItems ps))
  | .constItem => constItemNode e ps
  | .gotoStmt => labelNode .goto e ps
  | .labelStmt => labelNode .label e ps
  | .inlineHtmlStmt => inlineHtmlNode e ps
  | .nopStmt => nodeAt e .nop
  -- declarations
  | .functionDecl => functionNode e ps
  | .param => paramNode e ps
  | .classDecl => classNode e ps
  | .interfaceDecl => interfaceNode e ps
  | .traitDecl => traitNode e ps
  | .classMember => memberNode e ps
  | .traitUse => traitUseNode e ps
  | .classConst => classConstNode e ps
  | .methodDecl => methodNode e ps
  | .propertyDecl => propertiesNode e ps
  | .propertyItem => propertyNode e ps
  | _ => failAt e (.unexpected .atom r)

/-- Builds the syntax tree of a parse tree. -/
def buildTree (t : Grammar.ParseTree) : Build Node :=
  (t.annotate buildRule).value

/-- A matched text whose nesting stays within the limit. -/
def checkedTree (s : Script) (limit : Nat) : Except SyntaxError Grammar.ParseTree :=
  match Grammar.parse s.content with
  | .tree t =>
    match t.firstTooDeep limit with
    | some place => throw (.atPlace (.tooDeep limit) (place.location s.name))
    | none => return t
  | .unmatched a =>
    let place := ((Cursor.ofText s.content).forward a.place).location s.name
    throw (.atPlace (.unmatched a place.line) place)
  | .exhausted => throw (.atPlace .exhausted ((Cursor.ofText s.content).location s.name))

/-- The syntax tree of a script, with its nodes numbered from `next` on, and the next free
number. -/
def parseFrom (next : Nat) (s : Script) (limit : Nat) : Except SyntaxError Node × Nat :=
  match checkedTree s limit with
  | .ok t => (buildTree t).run s.name next
  | .error e => (.error e, next)

/-- The syntax tree of a script. -/
def parse (s : Script) (limit : Nat) : Except SyntaxError Node :=
  (parseFrom 1 s limit).1

end ThreeAddress.Syntax
