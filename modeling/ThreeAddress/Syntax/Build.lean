import ThreeAddress.Grammar.ParseTree
import ThreeAddress.Syntax.Error
import ThreeAddress.Syntax.Node

/-!
# Building nodes

Building a syntax tree hands out the numbers of its nodes, in the order in which the nodes
are made, and may fail. The next number is kept when building fails, so that a second text
goes on with fresh numbers.

A `Part` is a rule of a parse tree together with the building of its node. Building is put
together bottom-up: how a node is made is a function of the parts inside its rule.
-/

namespace ThreeAddress.Syntax

/-- Building in a named file, with the next node number as state. -/
abbrev Build := ReaderT String (ExceptT SyntaxError (StateM Nat))

/-- A rule of a parse tree with the building of its node. -/
abbrev Part := Grammar.Annotated (Build Node)

namespace Build

/-- Makes a node with the next number. -/
def node (kind : Kind Node) (location : Option Location) (span : Option Span) : Build Node := do
  let id ← getModify (· + 1)
  return ⟨id, kind, location, span⟩

/-- Makes the node of a stretch of the text. -/
def nodeAt (e : Extent) (kind : Kind Node) : Build Node := do
  let file ← read
  node kind (some (e.location file)) (some (e.span file))

/-- Fails at a place of the text. -/
def fail {α : Type} (cause : SyntaxError.Cause) (location : Option Location)
    (span : Option Span) : Build α :=
  throw ⟨cause, location, span⟩

/-- Fails because of a stretch of the text. -/
def failAt {α : Type} (e : Extent) (cause : SyntaxError.Cause) : Build α := do
  let file ← read
  fail cause (some (e.location file)) (some (e.span file))

/-- Builds both, the second one also if the first one fails; the first failure counts. -/
def both {α β : Type} (a : Build α) (b : Build β) : Build (α × β) := fun file next =>
  let (x, next) := a.run file next
  let (y, next) := b.run file next
  (do return (← x, ← y), next)

/-- Builds what there is. -/
def option {α : Type} : Option (Build α) → Build (Option α)
  | some b => some <$> b
  | none => return none

end Build

/-- Builds the node of a part that has to be a match of the rule. -/
def buildAs (r : Grammar.Rule) (p : Part) : Build Node :=
  if p.rule = r then p.value else Build.failAt p.extent .malformed

/-- Builds the node of a part that has to be one of several; if it is not, `e` is at fault. -/
def buildAmong (what : Expected) (e : Extent) (p : Part) : Build Node :=
  if p.rule ∈ what.rules then p.value else Build.failAt e (.unexpected what p.rule)

/-- Builds the nodes of parts that follow each other. -/
def buildAll (r : Grammar.Rule) (ps : List Part) : Build (List Node) :=
  ps.mapM (buildAs r)

/-- Builds the node of a part that may be missing. -/
def buildOption (r : Grammar.Rule) (p : Option Part) : Build (Option Node) :=
  Build.option (p.map (buildAs r))

/-- Goes on with the first part, which has to be there. -/
def withFirst {α : Type} (e : Extent) (f : Part → Build α) : List Part → Build α
  | p :: _ => f p
  | [] => Build.failAt e .missingPart

/-- Builds the node of the first part. -/
def buildFirst (r : Grammar.Rule) (e : Extent) : List Part → Build Node :=
  withFirst e (buildAs r)

/-- The first of the parts that the given rule matched. -/
def partOf? (r : Grammar.Rule) (ps : List Part) : Option Part :=
  ps.find? (·.rule == r)

end ThreeAddress.Syntax
