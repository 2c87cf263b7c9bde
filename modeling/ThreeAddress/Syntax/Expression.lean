import ThreeAddress.Number.Literal
import ThreeAddress.Syntax.Declaration
import ThreeAddress.Syntax.OperatorTree

/-!
# Expressions

Building expressions: a run of operands and operators is grouped by the **table of powers**
below and built from the leaves up; an operand is an atom with the accesses that follow it.

A bare name is a constant only once it is known not to be called and not to name a class.
-/

namespace ThreeAddress.Syntax

open Build

/-! ## Operators -/

/-- The role and the power of the rules in a run. -/
def affixOf : Grammar.Rule → Affix
  | .opOrKw => .between 10 false
  | .opXorKw => .between 20 false
  | .opAndKw => .between 30 false
  | .opInclude | .opPrint => .before 40
  | .opYield => .before 50
  | .opYieldFrom => .before 60
  | .opAssign | .opAssignRef => .between 70 true
  | .opTernary => .between 80 true
  | .opCoalesce => .between 90 true
  | .opBoolOr => .between 100 false
  | .opBoolAnd => .between 110 false
  | .opBitOr => .between 120 false
  | .opBitXor => .between 130 false
  | .opBitAnd => .between 140 false
  | .opEquality => .between 150 false
  | .opCompare => .between 160 false
  | .opConcat => .between 170 false
  | .opShift => .between 180 false
  | .opAdditive => .between 190 false
  | .opMultiplicative => .between 200 false
  | .opNot => .before 210
  | .instanceofOp => .after 220
  | .opNeg | .opPos | .opBitNot | .opSilence | .cast | .preInc | .preDec => .before 230
  | .opPow => .between 240 true
  | .opClone => .before 250
  | .postInc | .postDec => .after 250
  | _ => .operand

/-- What an operator makes of the operand after it. -/
def prefixKind (op : Part) (x : Node) : Except SyntaxError.Cause (Kind Node) :=
  match op.rule with
  | .cast =>
    match op.children.head?.bind fun p => CastType.ofWord? p.text with
    | some type => .ok (.cast type x)
    | none => .error (.unknown .cast op.text)
  | .preInc => .ok (.unaryOp .preInc x)
  | .preDec => .ok (.unaryOp .preDec x)
  | .opNeg => .ok (.unaryOp .minus x)
  | .opPos => .ok (.unaryOp .plus x)
  | .opNot => .ok (.unaryOp .not x)
  | .opBitNot => .ok (.unaryOp .bitNot x)
  | .opSilence => .ok (.unaryOp .silence x)
  | .opClone => .ok (.clone x)
  | .opPrint => .ok (.print x)
  | .opYield => .ok (.yield (some x))
  | .opYieldFrom => .ok (.yieldFrom x)
  | .opInclude => .ok (.inclusion (.ofWord op.text) x)
  | r => .error (.unexpected .prefixOperator r)

/-- An operator with the operand after it; it stands where the operator does. -/
def prefixNode (op : Part) (x : Node) : Build Node := do
  let file ← read
  let location := some (op.extent.location file)
  let span := Span.join? (some (op.extent.span file)) x.span
  match prefixKind op x with
  | .ok kind => node kind location span
  | .error cause => fail cause location span

/-- What an operator makes of the operand before it; `span` is the span of both. -/
def postfixKind (x : Node) (op : Part) (span : Option Span) : Build (Kind Node) :=
  match op.rule with
  | .postInc => return .unaryOp .postInc x
  | .postDec => return .unaryOp .postDec x
  | .instanceofOp => do return .instanceOf x (← buildFirst .classRef op.extent op.parts)
  | r => fail (.unexpected .postfixOperator r) x.location span

/-- An operator with the operand before it; it stands where the operand does. -/
def postfixNode (x : Node) (op : Part) : Build Node := do
  let file ← read
  let span := Span.join? x.span (some (op.extent.span file))
  let kind ← postfixKind x op span
  node kind x.location span

/-- The operation of an assignment, from its token with the equals sign at the end. -/
def assignedOperator? (op : Part) : Option BinaryOperator :=
  BinaryOperator.ofToken? (String.ofList op.extent.chars.dropLast)

/-- The kind of an operator between two operands. The middle of a conditional is built
after both of them. -/
def infixKind (l : Node) (op : Part) (r : Node) : Build (Kind Node) :=
  match op.rule with
  | .opAssignRef => return .assignRef l r
  | .opTernary => do return .ternary l (← buildOption .expr op.children.head?) r
  | .opAssign =>
    if op.text = "=" then return .assign l r
    else match assignedOperator? op with
      | some o => return .assignOp o l r
      | none => unknown .compoundAssignment
  | _ =>
    match BinaryOperator.ofToken? op.text with
    | some o => return .binaryOp l o r
    | none => unknown .binaryOperator
where
  /-- A token that is in no table; both operands are at fault. -/
  unknown (what : Vocabulary) : Build (Kind Node) :=
    fail (.unknown what op.text) l.location (Span.join? l.span r.span)

/-- An operator between two operands; it stands where the left one does. -/
def infixNode (l : Node) (op : Part) (r : Node) : Build Node := do
  let kind ← infixKind l op r
  node kind l.location (Span.join? l.span r.span)

/-- Builds the nodes of a tree of operators from the leaves up. -/
def OperatorTree.build : OperatorTree Part → Build Node
  | .leaf p => buildAs .operand p
  | .before op t => do prefixNode op (← t.build)
  | .after t op => do postfixNode (← t.build) op
  | .between l op r => do
    let (x, y) ← both l.build r.build
    infixNode x op y

/-- An expression. -/
def expressionNode (e : Extent) (run : List Part) : Build Node :=
  match OperatorTree.ofTokens? (fun p : Part => affixOf p.rule) run with
  | some t => t.build
  | none => failAt e .malformed

/-! ## Operands -/

/-- A name on its own is the name of a constant. -/
def asValue (n : Node) : Build Node :=
  match n.kind with
  | .qualifiedName .. => node (.constFetch n) n.location n.span
  | _ => return n

/-- Something that follows an atom or another access. -/
inductive Access where
  | call (args : Part)
  | index (p : Part)
  | member (p : Part)
  /-- A member that is called. -/
  | method (p args : Part)
  /-- No access at all. -/
  | other (p : Part)

namespace Access

/-- Whether a rule names a member. -/
def isMember : Grammar.Rule → Bool
  | .propAccess | .nullsafeAccess | .staticMember => true
  | _ => false

/-- A part on its own as an access. -/
def ofPart (p : Part) : Access :=
  match p.rule with
  | .callArgs => .call p
  | .dimAccess => .index p
  | r => if isMember r then .member p else .other p

/-- The accesses in a row of parts: arguments belong to the member right before them. -/
def ofParts : List Part → List Access
  | [] => []
  | [p] => [ofPart p]
  | p :: q :: rest =>
    if isMember p.rule && q.rule == .callArgs then .method p q :: ofParts rest
    else ofPart p :: ofParts (q :: rest)

/-- The part that the access ends with. -/
def last : Access → Part
  | .call p | .index p | .member p | .method _ p | .other p => p

/-- The kind of a member without a call. -/
def memberKind (p : Part) (base member : Node) : Kind Node :=
  match p.rule with
  | .staticMember =>
    if p.parts.head?.any (·.rule == .variableName) then .staticPropertyFetch base member
    else .classConstFetch base member
  | r => .propertyFetch base member (r == .nullsafeAccess)

/-- The kind of a member with a call. -/
def methodKind (p : Part) (base member : Node) (args : List Node) : Kind Node :=
  match p.rule with
  | .staticMember => .staticCall base member args
  | r => .methodCall base member args (r == .nullsafeAccess)

/-- What a member is taken of: a class keeps its name, an object is a value. -/
def owner (p : Part) (base : Node) : Build Node :=
  if p.rule = .staticMember then return base else asValue base

/-- The name of a member, which is the first of the parts; without one, `e` is at fault. -/
def nameIn (e : Extent) : List Part → Build Node :=
  withFirst e fun p => buildAmong .memberName p.extent p

/-- The kind of the access to `base` in the operand at `e`. -/
def kind (e : Extent) (base : Node) : Access → Build (Kind Node)
  | .call p => do return .call base (← buildAll .argument p.parts)
  | .index p => do
    let index ← buildOption .expr p.children.head?
    return .arrayDimFetch (← asValue base) index
  | .member p => do
    let member ← nameIn p.extent p.parts
    return memberKind p (← owner p base) member
  | .method p args => do
    let member ← nameIn p.extent p.parts
    let base ← owner p base
    return methodKind p base member (← buildAll .argument args.parts)
  | .other p => failAt e (.unexpected .accessor p.rule)

/-- The access to `base` as a node. It starts where the whole operand does. -/
def node (e : Extent) (base : Node) (a : Access) : Build Node := do
  let file ← read
  let kind ← a.kind e base
  Build.node kind (some (e.location file))
    (some ((e.span file).join (a.last.extent.span file)))

end Access

/-- An operand: an atom and what is accessed of it. -/
def operandNode (e : Extent) (ps : List Part) : Build Node := do
  let start ← withFirst e (fun p => buildAmong .atom p.extent p) ps
  asValue (← (Access.ofParts ps.tail).foldlM (fun n a => a.node e n) start)

/-- The name of a member, or the expression that gives it. -/
def memberNameNode (e : Extent) : List Part → Build Node :=
  withFirst e fun p =>
    if p.rule = .expr then p.value else buildAmong .memberName p.extent p

/-- A variable whose name is the value of another one or of an expression. -/
def variableVariableNode (e : Extent) (ps : List Part) : Build Node := do
  let name ← withFirst e (fun p =>
    if p.rule = .braceExpr then p.value else buildAmong .atom p.extent p) ps
  nodeAt e (.variableVariable name)

/-- A class that is named or looked up. -/
def classRefNode (e : Extent) : List Part → Build Node :=
  withFirst e (buildAmong .classReference e)

/-- The kind of an access in the name of a class, at `e`, to be looked up. -/
def classAccessKind (e : Extent) (base : Node) (p : Part) : Build (Kind Node) :=
  match p.rule with
  | .dimAccess => do return .arrayDimFetch base (← buildOption .expr p.children.head?)
  | .staticMember => do return .staticPropertyFetch base (← Access.nameIn e p.parts)
  | r => do return .propertyFetch base (← Access.nameIn e p.parts) (r == .nullsafeAccess)

/-- A class that is looked up in a variable and its members. -/
def dynamicClassNode (e : Extent) (ps : List Part) : Build Node := do
  let file ← read
  let start ← withFirst e (fun p => buildAmong .atom p.extent p) ps
  ps.tail.foldlM (fun n p => do
    let kind ← classAccessKind e n p
    node kind (some (e.location file)) (some ((e.span file).join (p.extent.span file)))) start

/-! ## Calls and arrays -/

/-- An argument of a call. -/
def argumentNode (e : Extent) : List Part → Build Node :=
  withFirst e fun p =>
    match p.rule with
    | .spreadArg => do
      nodeAt e (.argument (← buildFirst .expr p.extent p.parts) true false none)
    | .namedArg => do
      let label ← withFirst p.extent (fun label => return label.text) p.parts
      nodeAt e (.argument (← buildFirst .expr p.extent p.parts.tail) false false (some label))
    | _ => do nodeAt e (.argument (← buildAs .expr p) false false none)

/-- The items of an array. A comma at the end leaves an empty slot that is no item. -/
def arrayItems (items : Part) : Build (List (Option Node)) := do
  let slots ← items.parts.mapM fun slot => buildOption .arrayItem slot.children.head?
  return match slots.getLast? with
    | some none => slots.dropLast
    | _ => slots

/-- The items of the array that a rule holds. -/
def arrayItemsIn (e : Extent) : List Part → Build (List (Option Node)) :=
  withFirst e arrayItems

/-- The value in a part of an array item, which is found by its rule. -/
def itemValue (what : Sought) (p : Part) : Build Node :=
  match partOf? .expr p.parts with
  | some value => value.value
  | none => failAt p.extent (.lacking what)

/-- An item of an array, with its key if it has one. -/
def arrayItemNode (e : Extent) (ps : List Part) : Build Node :=
  withFirst e (fun p =>
    match p.rule, ps.tail with
    | .spreadItem, _ => do nodeAt e (.arrayItem none (← itemValue .elementValue p) false true)
    | .refItem, _ => do nodeAt e (.arrayItem none (← itemValue .elementValue p) true false)
    | _, keyed :: _ => do
      let key ← buildAs .expr p
      nodeAt e (.arrayItem (some key) (← itemValue .keyedValue keyed) (isByRef keyed.parts) false)
    | _, [] => do nodeAt e (.arrayItem none (← buildAs .expr p) false false)) ps

/-! ## Literals -/

/-- The value of an integer literal. -/
def integerKind? (text : String) : Option (Kind Node) :=
  (Number.ofInteger? text).map fun
    | .integer n => .integer n
    | .float x => .float x

/-- An integer literal. -/
def integerNode (e : Extent) : Build Node :=
  match integerKind? e.text with
  | some kind => nodeAt e kind
  | none => failAt e (.badInteger e.text)

/-- A float literal. -/
def floatNode (e : Extent) : Build Node :=
  match Number.ofFloat? e.text with
  | some x => nodeAt e (.float x)
  | none => failAt e (.badFloat e.text)

/-- A single-quoted string. -/
def singleQuotedNode (e : Extent) : Build Node :=
  nodeAt e (.string (Text.unescapeSingle (String.ofList e.chars.tail.dropLast)))

/-- Whether a part of a string counts: texts and expressions do. -/
def isInterpolation : Grammar.Rule → Bool
  | .quotedText | .heredocText | .backtickText | .braceInterp | .simpleInterp => true
  | _ => false

/-- The parts of a string. -/
def stringParts (ps : List Part) : Build (List Node) :=
  (ps.filter (isInterpolation ·.rule)).mapM (·.value)

/-- The raw text of a node that is a part of a string. -/
def stringPart? (n : Node) : Option String :=
  match n.kind with
  | .stringPart value => some value
  | _ => none

/-- A double-quoted string or a heredoc. It is a plain string if it holds texts alone. -/
def doubleQuotedNode (e : Extent) (ps : List Part) : Build Node := do
  let parts ← stringParts ps
  match parts.mapM stringPart? with
  | some texts => nodeAt e (.string (Text.unescapeDouble (String.join texts)))
  | none => nodeAt e (.interpolated parts)

/-- The index in a simple interpolation. -/
def interpolatedIndex (key : Part) : Build Node :=
  match key.rule with
  | .variableName => key.value
  | .interpOffset => nodeAt key.extent ((integerKind? key.text).getD (.string key.text))
  | _ => nodeAt key.extent (.string key.text)

/-- The kind of an index or a property of a variable in a string. -/
def suffixKind (base : Node) (suffix key : Part) : Build (Kind Node) :=
  if suffix.rule = .interpProp then do
    return .propertyFetch base (← nodeAt key.extent (.identifier key.text)) false
  else do return .arrayDimFetch base (some (← interpolatedIndex key))

/-- A variable in a string, with at most one index or property. -/
def simpleInterpolationNode (e : Extent) (ps : List Part) : Build Node := do
  let base ← buildFirst .variableName e ps
  match ps.tail with
  | [] => return base
  | suffix :: _ => do nodeAt e (← withFirst suffix.extent (suffixKind base suffix) suffix.parts)

/-! ## Closures and objects -/

/-- A variable that a closure captures. -/
def closureUseNode (e : Extent) (ps : List Part) : Build Node :=
  match partOf? .variableName ps with
  | some v => do nodeAt e (.closureUse (← v.value) (isByRef ps))
  | none => failAt e (.lacking .captured)

/-- The body of a closure; the expression of an arrow function is what it returns. -/
def closureBody (ps : List Part) : Build (List Node) :=
  match partOf? .block ps, partOf? .expr ps with
  | some block, _ => blockBody block
  | none, some value => do
    let result ← value.value
    return [← nodeAt value.extent (.returnStmt (some result))]
  | none, none => return []

/-- A closure or an arrow function. -/
def closureNode (e : Extent) (arrow : Bool) (children : List Part) : Build Node := do
  let params ← paramList children
  let uses ← buildAll .closureUse ((partOf? .closureUses children).elim [] (·.parts))
  let body ← closureBody children
  let isStatic := children.any (·.rule == .keyword .staticKw)
  nodeAt e (.closure params uses body (isByRef children) isStatic arrow)

/-- A class that is declared where it is instantiated, and its arguments. -/
def anonymousClass (p : Part) : Build (Node × List Node) := do
  let args ← buildAll .argument ((partOf? .callArgs p.parts).elim [] (·.parts))
  let parent ← parentClass p.parts
  let interfaces ← nameList p.parts
  let members ← memberList p.parts
  return (← nodeAt p.extent (.classDecl none [] parent interfaces members), args)

/-- What is instantiated, and the arguments. -/
def instantiated (target : Part) (rest : List Part) : Build (Node × List Node) :=
  if target.rule = .anonymousClass then anonymousClass target
  else do
    let owner ← buildAs .classRef target
    return (owner, ← buildAll .argument (rest.head?.elim [] (·.parts)))

/-- An instantiation. -/
def newNode (e : Extent) (ps : List Part) : Build Node := do
  let (owner, args) ← withFirst e (fun target => instantiated target ps.tail) ps
  nodeAt e (.new owner args)

end ThreeAddress.Syntax
