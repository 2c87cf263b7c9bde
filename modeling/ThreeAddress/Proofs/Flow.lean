import ThreeAddress.Lowering.Script
import ThreeAddress.Proofs.Machine

/-!
# Structured programs

What statements do before they are linearized: `Flow` keeps conditionals, loops and jumps as
they are nested, with expressions as the lines and the value that they are lowered to.
`Flow.exec` executes a flow by its structure: **a loop goes round by round, and a jump is an
exit** that the loops around it pass on or stop at. There are no labels.

`outline` gives the flow of a statement.
-/

namespace ThreeAddress

/-- A condition: the lines that have to run before it is tested, and its value. -/
structure Test where
  lines : List String
  condition : String
deriving DecidableEq, Repr

/-- A structured program. -/
inductive Flow where
  | lines (ls : List String)
  | seq (first second : Flow)
  | choice (test : Test) (yes no : Flow)
  | whileLoop (test : Test) (body : Flow)
  | doWhile (body : Flow) (test : Test)
  /-- A round is entered if all tests hold, and ends with the step. -/
  | forLoop (tests : List Test) (step : List String) (body : Flow)
  /-- A round is entered if there is another element. The collection and what it binds were
  evaluated before. -/
  | foreachLoop (iterable binding : String) (body : Flow)
  /-- Leaves the loop that has so many loops between. -/
  | leave (between : Nat)
  /-- Goes to the next round of the loop that has so many loops between. -/
  | next (between : Nat)
deriving Repr

namespace Flow

/-- How an execution goes on. -/
inductive Exit where
  | normal
  | leave (between : Nat)
  | next (between : Nat)
  /-- A test has no answer any more. -/
  | starved
  /-- A loop takes more rounds than it was given. -/
  | unfinished
deriving DecidableEq, Repr

/-- What an execution comes to. -/
structure Outcome where
  exit : Exit
  /-- The answers that are left. -/
  oracle : List Bool
  seen : List Observation
deriving DecidableEq, Repr

namespace Outcome

/-- The outcome if something was seen before. -/
def behind (seen : List Observation) (x : Outcome) : Outcome :=
  { x with seen := seen ++ x.seen }

/-- Goes on after a normal exit. -/
def andThen (x : Outcome) (go : List Bool → Outcome) : Outcome :=
  match x.exit with
  | .normal => (go x.oracle).behind x.seen
  | _ => x

/-- The body of a loop is done if the next round of this loop is asked for. -/
def caught (x : Outcome) : Outcome :=
  match x.exit with
  | .next 0 => { x with exit := .normal }
  | _ => x

/-- Goes on after a round of a loop. A jump that goes further has one loop less between. -/
def again (x : Outcome) (go : List Bool → Outcome) : Outcome :=
  match x.exit with
  | .normal => (go x.oracle).behind x.seen
  | .leave 0 => { x with exit := .normal }
  | .leave (n + 1) => { x with exit := .leave n }
  | .next 0 => (go x.oracle).behind x.seen
  | .next (n + 1) => { x with exit := .next n }
  | .starved | .unfinished => x

end Outcome

/-- Plain lines. -/
def emit (ls : List String) (oracle : List Bool) : Outcome :=
  ⟨.normal, oracle, ls.map .line⟩

/-- Asks the oracle, shows the answer, and goes on by it. -/
def ask (shown : Bool → Observation) (yes no : List Bool → Outcome) : List Bool → Outcome
  | [] => ⟨.starved, [], []⟩
  | b :: oracle => ((if b then yes else no) oracle).behind [shown b]

/-- Runs the lines of a test and asks for it. -/
def check (t : Test) (yes no : List Bool → Outcome) (oracle : List Bool) : Outcome :=
  (emit t.lines oracle).andThen (ask (.test t.condition) yes no)

/-- Goes through tests as long as they hold. -/
def checkAll (yes no : List Bool → Outcome) : List Test → List Bool → Outcome
  | [] => yes
  | t :: ts => check t (checkAll yes no ts) no

/-- Leaves the innermost loop. -/
def stop (oracle : List Bool) : Outcome :=
  ⟨.leave 0, oracle, []⟩

/-- Nothing more in this round. -/
def done (oracle : List Bool) : Outcome :=
  ⟨.normal, oracle, []⟩

/-- At most so many rounds. -/
def loop (round : List Bool → Outcome) : Nat → List Bool → Outcome
  | 0, oracle => ⟨.unfinished, oracle, []⟩
  | k + 1, oracle => (round oracle).again (loop round k)

/-- Executes a flow, in which every loop has so many rounds at most. -/
def exec (rounds : Nat) : Flow → List Bool → Outcome
  | .lines ls => emit ls
  | .seq f g => fun oracle => (f.exec rounds oracle).andThen (g.exec rounds)
  | .choice t f g => check t (f.exec rounds) (g.exec rounds)
  | .whileLoop t f => loop (check t (fun oracle => (f.exec rounds oracle).caught) stop) rounds
  | .doWhile f t =>
    loop (fun oracle => (f.exec rounds oracle).caught.andThen (check t done stop)) rounds
  | .forLoop ts s f =>
    loop (checkAll (fun oracle => (f.exec rounds oracle).caught.andThen (emit s)) stop ts) rounds
  | .foreachLoop i b f =>
    loop (ask (.advance i b) (fun oracle => (f.exec rounds oracle).caught) stop) rounds
  | .leave n => fun oracle => ⟨.leave n, oracle, []⟩
  | .next n => fun oracle => ⟨.next n, oracle, []⟩

/-- How a whole program ends with an exit. -/
def Exit.ending? : Exit → Option Ending
  | .normal => some .finished
  | .starved => some .starved
  | _ => none

/-- The execution ends, after all of `seen` and with the answers `rest` left. -/
def Ends (f : Flow) (oracle : List Bool) (seen : List Observation) (rest : List Bool)
    (e : Ending) : Prop :=
  ∃ rounds x, f.exec rounds oracle = x ∧ x.exit.ending? = some e ∧ x.seen = seen ∧ x.oracle = rest

/-- The execution starts with `seen`. -/
def Shows (f : Flow) (oracle : List Bool) (seen : List Observation) : Prop :=
  ∃ rounds, seen <+: (f.exec rounds oracle).seen

end Flow

/-! ## The flows of statements -/

namespace Lowering

open Syntax (Node Kind)
open Lower (newLabels)

/-- The instructions as lines. -/
def linesOf (code : List Instruction) : List String :=
  code.map Instruction.line

/-- A lowered expression as a condition. -/
def testOf (a : Lowered) : Test :=
  ⟨linesOf a.effects, a.value⟩

/-- An expression as a condition. -/
def outlineTest (n : Planned) : Lower Test :=
  return testOf (← n.value.run)

/-- A plan as lines. -/
def outlineLines (p : Plan) : Lower (List String) :=
  return linesOf (← p.run).effects

/-- Passes over labels, which are numbered together with those in the text of a closure. -/
def passLabels : Nat → Lower Unit
  | 0 => return
  | k + 1 => do
    let _ ← newLabels
    passLabels k

/-- The conditions of a loop with a head; there is a label after each but the last one. -/
def outlineTests : List Planned → Lower (List Test)
  | [] => return []
  | [n] => return [← outlineTest n]
  | n :: m :: ns => do
    let t ← outlineTest n
    passLabels 1
    return t :: (← outlineTests (m :: ns))

/-- One flow after the other. -/
def outlineAll : List (Lower Flow) → Lower Flow
  | [] => return .lines []
  | x :: xs => do
    let f ← x
    return .seq f (← outlineAll xs)

/-- A node with its flow. -/
abbrev Outlined := Planned × Lower Flow

/-- The flow of a node of the given kind; `plan` is its plan. -/
def outlineKind (plan : Plan) : Kind Outlined → Lower Flow
  | .expressionStmt _ | .echo _ | .nop | .inlineHtml _ => return .lines (← outlineLines plan)
  | .block body => outlineAll (body.map Prod.snd)
  | .ifElse condition thenBranch none => do
    let t ← outlineTest condition.1
    passLabels 1
    return .choice t (← outlineAll (thenBranch.map Prod.snd)) (.lines [])
  | .ifElse condition thenBranch (some elseBranch) => do
    let t ← outlineTest condition.1
    passLabels 2
    let f ← outlineAll (thenBranch.map Prod.snd)
    return .choice t f (← outlineAll (elseBranch.map Prod.snd))
  | .whileLoop condition body => do
    passLabels 2
    let t ← outlineTest condition.1
    return .whileLoop t (← outlineAll (body.map Prod.snd))
  | .doWhile body condition => do
    passLabels 2
    let f ← outlineAll (body.map Prod.snd)
    return .doWhile f (← outlineTest condition.1)
  | .forLoop init conditions step body => do
    let before ← outlineLines (expressionsCode (init.map Prod.fst))
    passLabels 3
    let ts ← outlineTests (conditions.map Prod.fst)
    let f ← outlineAll (body.map Prod.snd)
    let after ← outlineLines (expressionsCode (step.map Prod.fst))
    return .seq (.lines before) (.forLoop ts after f)
  | .foreachLoop iterable key value byRef body => do
    let i ← iterable.1.value.run
    let b ← (bindingPlan (key.map Prod.fst) value.1 byRef).run
    passLabels 2
    let f ← outlineAll (body.map Prod.snd)
    return .seq (.lines (linesOf (i.effects ++ b.effects))) (.foreachLoop i.value b.value f)
  | .breakStmt levels => return .leave (levels.getD 1 - 1)
  | .continueStmt levels => return .next (levels.getD 1 - 1)
  | _ => return .lines []

/-- A node with its flow, and likewise all nodes inside it. -/
def outlined : Node → Outlined :=
  Node.fold fun n k => (planned n, outlineKind (planned n).plan k)

/-- The flow of a statement. Its expressions are lowered in the order in which they are in the
listing, so that they get the same temporaries. -/
def outline (n : Node) : Lower Flow :=
  (outlined n).2

/-- Whether a kind is one of lines, blocks, conditionals, loops and jumps, and every jump in it
ends at one of the loops around it, of which there are `loops` outside. -/
def structuredKind (k : Kind (Nat → Bool)) (loops : Nat) : Bool :=
  match k with
  | .expressionStmt _ | .echo _ | .nop | .inlineHtml _ => true
  | .block body => body.all (· loops)
  | .ifElse _ thenBranch elseBranch =>
    thenBranch.all (· loops) && (elseBranch.getD []).all (· loops)
  | .whileLoop _ body | .doWhile body _ | .forLoop _ _ _ body | .foreachLoop _ _ _ _ body =>
    body.all (· (loops + 1))
  | .breakStmt levels | .continueStmt levels =>
    decide (1 ≤ levels.getD 1 ∧ levels.getD 1 ≤ loops)
  | _ => false

/-- Whether a statement is structured, inside so many loops. -/
def isStructured : Node → Nat → Bool :=
  Node.fold fun _ => structuredKind

end Lowering

end ThreeAddress
