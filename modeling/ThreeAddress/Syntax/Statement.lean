import ThreeAddress.Number.Literal
import ThreeAddress.Syntax.Declaration

/-!
# Statements

Building statements. The body of a control structure is a list: a block there is flattened
into its statements, though it has used up a number. A chain of `elseif` clauses becomes
**nested conditionals** in the else branch, the innermost one made first.
-/

namespace ThreeAddress.Syntax

open Build

/-- The statements of a body. -/
def bodyOf (n : Node) : List Node :=
  match n.kind with
  | .block statements => statements
  | _ => [n]

/-- A block as a statement of its own. -/
def blockNode (e : Extent) (block : Part) : Build Node := do
  nodeAt e (.block (← blockBody block))

/-- A statement; a block takes the place of the statement around it. -/
def statementNode (e : Extent) : List Part → Build Node :=
  withFirst e fun p =>
    if p.rule = .block then blockNode e p else buildAmong .statement p.extent p

/-- A whole script: its statements and the text around the tags. -/
def scriptNode (e : Extent) (ps : List Part) : Build Node := do
  let body ← (ps.filter fun p => p.rule == .statement || p.rule == .inlineHtml).mapM (·.value)
  nodeAt e (.script body)

/-! ## Conditionals -/

/-- The condition and the body of a clause, and where it stands. -/
structure ElseIf where
  condition : Node
  body : List Node
  extent : Extent

/-- A clause with a condition. -/
def elseIfClause (p : Part) : Build ElseIf := do
  let condition ← buildFirst .expr p.extent p.parts
  let body ← buildFirst .statement p.extent p.parts.tail
  return ⟨condition, bodyOf body, p.extent⟩

/-- The clause without a condition, if there is one. -/
def elseBody (clause : Option Part) : Build (Option (List Node)) :=
  Build.option (clause.map fun p => bodyOf <$> buildFirst .statement p.extent p.parts)

/-- Puts a clause around the else branch of the clauses after it. -/
def nestElse (c : ElseIf) (rest : Option (List Node)) : Build (Option (List Node)) := do
  return some [← nodeAt c.extent (.ifElse c.condition c.body rest)]

/-- A conditional with all its clauses. -/
def ifNode (e : Extent) (ps : List Part) : Build Node := do
  let condition ← buildFirst .expr e ps
  let body ← buildFirst .statement e ps.tail
  let clauses := ps.drop 2
  let elseIfs ← (clauses.filter (·.rule == .elseifClause)).mapM elseIfClause
  let last ← elseBody (clauses.find? (·.rule != .elseifClause))
  let elseBranch ← elseIfs.foldrM nestElse last
  nodeAt e (.ifElse condition (bodyOf body) elseBranch)

/-- A clause of a switch; the default one has no test. -/
def caseNode (e : Extent) (children ps : List Part) : Build Node :=
  if children.any (·.rule == .keyword .caseKw) then do
    let test ← buildFirst .expr e ps
    nodeAt e (.caseClause (some test) (← buildAll .statement ps.tail))
  else do nodeAt e (.caseClause none (← buildAll .statement ps))

/-- A switch. -/
def switchNode (e : Extent) (ps : List Part) : Build Node := do
  let subject ← buildFirst .expr e ps
  nodeAt e (.switch subject (← buildAll .caseClause ps.tail))

/-! ## Loops -/

/-- A loop that tests before each round. -/
def whileNode (e : Extent) (ps : List Part) : Build Node := do
  let condition ← buildFirst .expr e ps
  let body ← buildFirst .statement e ps.tail
  nodeAt e (.whileLoop condition (bodyOf body))

/-- A loop that tests after each round. -/
def doWhileNode (e : Extent) (ps : List Part) : Build Node := do
  let body ← buildFirst .statement e ps
  let condition ← buildFirst .expr e ps.tail
  nodeAt e (.doWhile (bodyOf body) condition)

/-- The expressions of one clause of a `for` head. -/
def forClause (p : Part) : Build (List Node) :=
  buildAll .expr (p.partsOf .expr)

/-- A loop with a head of three clauses. -/
def forNode (e : Extent) (ps : List Part) : Build Node := do
  let init ← withFirst e forClause ps
  let conditions ← withFirst e forClause ps.tail
  let step ← withFirst e forClause (ps.drop 2)
  let body ← buildFirst .statement e (ps.drop 3)
  nodeAt e (.forLoop init conditions step (bodyOf body))

/-- What a loop over a collection binds in every round. -/
structure Binding where
  key : Option Node
  value : Node
  byRef : Bool

/-- The binding with a key. -/
def keyedBinding (key : Node) (keyed : Part) : Build Binding :=
  match partOf? .expr keyed.parts with
  | some value => return ⟨some key, ← buildAs .expr value, isByRef keyed.parts⟩
  | none => failAt keyed.extent (.lacking .foreachValue)

/-- The binding of a loop over a collection. -/
def foreachBinding (p : Part) : Build Binding :=
  withFirst p.extent (fun first =>
    if first.rule = .byRef then do
      return ⟨none, ← buildFirst .expr p.extent p.parts.tail, true⟩
    else do
      let first ← buildAs .expr first
      match p.parts.tail with
      | keyed :: _ => keyedBinding first keyed
      | [] => return ⟨none, first, false⟩) p.parts

/-- A loop over a collection. -/
def foreachNode (e : Extent) (ps : List Part) : Build Node := do
  let iterable ← buildFirst .expr e ps
  let b ← withFirst e foreachBinding ps.tail
  let body ← buildFirst .statement e (ps.drop 2)
  nodeAt e (.foreachLoop iterable b.key b.value b.byRef (bodyOf body))

/-- The number of loops that a jump leaves, where it is given. -/
def jumpLevels (e : Extent) : List Part → Build (Option Nat)
  | [] => return none
  | p :: _ =>
    match Number.loopDepth? p.text with
    | some n => return some n
    | none => failAt e (.badLoopDepth p.text)

/-! ## Other statements -/

/-- A handler of a `try` statement. -/
def catchNode (e : Extent) (ps : List Part) : Build Node := do
  let types ← buildAll .qualifiedName (ps.filter (·.rule == .qualifiedName))
  let caught ← buildOption .variableName (partOf? .variableName ps)
  let body ← blockBody? (partOf? .block ps)
  nodeAt e (.catchClause types caught (body.getD []))

/-- The statements of the clause that is always run. -/
def finallyBody (clause : Part) : Build (List Node) :=
  withFirst clause.extent blockBody clause.parts

/-- A `try` statement. -/
def tryNode (e : Extent) (ps : List Part) : Build Node := do
  let body ← withFirst e blockBody ps
  let clauses := ps.tail
  let catches ← buildAll .catchClause (clauses.filter (·.rule == .catchClause))
  let finalBody ← Build.option ((clauses.find? (·.rule != .catchClause)).map finallyBody)
  nodeAt e (.tryCatch body catches finalBody)

/-- A static variable with its first value. -/
def staticVarNode (e : Extent) (ps : List Part) : Build Node := do
  let declared ← buildFirst .variableName e ps
  nodeAt e (.staticVar declared (← buildOption .expr ps.tail.head?))

/-- A namespace, with its statements if they stand in a block. -/
def namespaceNode (e : Extent) (ps : List Part) : Build Node := do
  let name ← buildOption .qualifiedName (partOf? .qualifiedName ps)
  let body ← blockBody? (partOf? .block ps)
  nodeAt e (.namespaceStmt name body)

/-- The word before an imported name that says what is imported. -/
def importKind (ps : List Part) : Option String :=
  (partOf? .useKind ps).map (·.word)

/-- An imported name, which may be renamed. Inside a group it stands in a part of its own. -/
def useItemNode (e : Extent) (ps : List Part) : Build Node := do
  let kind := (ps.head?.filter (·.rule == .useKind)).map (·.word)
  let item := if kind.isSome then ps.tail else ps
  let inner ← withFirst e (fun p => return if p.rule = .useItem then p.parts else item) item
  let name ← buildFirst .qualifiedName e inner
  nodeAt e (.useItem kind name (inner.tail.head?.map (·.text)))

/-- An import. -/
def useNode (e : Extent) (ps : List Part) : Build Node := do
  match partOf? .useGroup ps with
  | some grouped =>
    let common ← buildOption .groupPrefix (partOf? .groupPrefix grouped.parts)
    let items ← buildAll .useGroupItem (grouped.parts.filter (·.rule != .groupPrefix))
    nodeAt e (.useStmt (importKind ps) common items)
  | none =>
    let items ← buildAll .useItem (ps.filter (·.rule != .useKind))
    nodeAt e (.useStmt (importKind ps) none items)

/-- A jump to a label, or the label. -/
def labelNode (kind : String → Kind Node) (e : Extent) (ps : List Part) : Build Node := do
  let name ← withFirst e (fun p => return p.text) ps
  nodeAt e (kind name)

/-- The text between a close tag and the next open tag. -/
def inlineHtmlNode (e : Extent) (ps : List Part) : Build Node :=
  nodeAt e (.inlineHtml ((partOf? .inlineText ps).elim "" (·.text)))

end ThreeAddress.Syntax
