import ThreeAddress.Lowering.Plan

/-!
# Running plans

Turns a plan into a value and instructions, handing out temporaries and labels on the way.
Parts are lowered from left to right. The shapes of the control structures stand on their
own, as functions of their labels and their lowered parts.
-/

namespace ThreeAddress.Lowering

/-- A value, and the instructions that have to run before it is used. -/
structure Lowered where
  value : String := ""
  effects : List Instruction := []
deriving DecidableEq, Repr, Inhabited

namespace Lowered

/-- Neither a value nor instructions. -/
def isEmpty (l : Lowered) : Bool :=
  l.value.isEmpty && l.effects.isEmpty

instance : Append Lowered :=
  ⟨fun a b => ⟨a.value ++ b.value, a.effects ++ b.effects⟩⟩

/-- Instructions without a value. -/
def ofCode (code : List Instruction) : Lowered :=
  ⟨"", code⟩

/-- The instructions, and the value as a line. -/
def asLine (l : Lowered) : Lowered :=
  ofCode (l.effects ++ [.text l.value])

/-- The instructions, and the value as a line with a semicolon unless it is empty. -/
def asValueLine (l : Lowered) : Lowered :=
  if l.value.isEmpty then ofCode l.effects
  else ofCode (l.effects ++ [.text (l.value ++ ";")])

/-- The value between two texts, unless it is empty. -/
def wrapped (before after : String) (l : Lowered) : Lowered :=
  if l.value.isEmpty then l else { l with value := before ++ l.value ++ after }

end Lowered

/-- Drops the blanks around equals signs. -/
def compactChars : List Char → List Char
  | ' ' :: '=' :: ' ' :: cs => '=' :: compactChars cs
  | c :: cs => c :: compactChars cs
  | [] => []

/-- Instructions on one line between braces. -/
def inBraces (code : List Instruction) : String :=
  if code.isEmpty then " \x7b \x7d"
  else " \x7b " ++ " ".intercalate (code.map Instruction.line) ++ " \x7d"

/-! ## Shapes of control structures -/

namespace Shape

/-- Jumps to a label if the value holds, and to another one otherwise. -/
def test (condition : Lowered) (yes no : String) : List Instruction :=
  condition.effects ++ [.ifGoto condition.value yes, .goto no]

/-- A conditional without an else branch. -/
def ifThen (condition : Lowered) (l : Labels) (thenCode : List Instruction) :
    List Instruction :=
  test condition l.start l.stop ++ .label l.start :: thenCode ++ [.goto l.stop, .label l.stop]

/-- A conditional with an else branch, which starts at the label `other`. -/
def ifThenElse (condition : Lowered) (l : Labels) (other : String)
    (thenCode elseCode : List Instruction) : List Instruction :=
  test condition l.start other ++ .label l.start :: thenCode
    ++ .goto l.stop :: .label other :: elseCode ++ [.goto l.stop, .label l.stop]

/-- A loop that tests before each round; `round` is the label of its body. The condition is
evaluated again, by the same instructions, at the end of a round. -/
def whileLoop (condition : Lowered) (l : Labels) (round : String) (code : List Instruction) :
    List Instruction :=
  .label l.start :: test condition round l.stop ++ .label round :: code
    ++ test condition round l.stop ++ [.label l.stop]

/-- A loop that tests after each round; `next` is the label of the test. -/
def doWhile (condition : Lowered) (l : Labels) (next : String) (code : List Instruction) :
    List Instruction :=
  .label l.start :: code ++ .label next :: condition.effects
    ++ [.ifGoto condition.value l.start, .label l.stop]

/-- A condition that the loop goes on behind, at the label `pass`; otherwise `exit`
leaves it. -/
def barrier (condition : Lowered) (pass : String) (exit : Instruction) : List Instruction :=
  condition.effects ++ [.ifGoto condition.value pass, exit, .label pass]

/-- A loop with a head: `tests` come before each round, `round` and `next` are the labels of
the body and of the step after it. -/
def forLoop (init tests step : List Instruction) (l : Labels) (round next : String)
    (code : List Instruction) : List Instruction :=
  init ++ .label l.start :: tests ++ .label round :: code ++ .label next :: step
    ++ [.goto l.start, .label l.stop]

/-- A loop over a collection; `next` is the label of the step after a round. -/
def foreachLoop (iterable binding : Lowered) (l : Labels) (next : String)
    (code : List Instruction) : List Instruction :=
  let advance := .foreach iterable.value binding.value l.start
  iterable.effects ++ binding.effects ++ advance :: .goto l.stop :: .label l.start :: code
    ++ [.label next, advance, .label l.stop]

end Shape

open Lower

/-- Runs a plan. Before a node is lowered, `enter` notes that it is met and tells whether that
is for the first time; after a node one level down, `leave` goes back up. -/
def Plan.runWith (enter : Nat → Lower Bool) (leave : Lower Unit := ascend) : Plan → Lower Lowered
  | .nothing => return {}
  | .both p q => do
    let a ← p.runWith enter leave
    let b ← q.runWith enter leave
    return a ++ b
  | .text s => return { value := s }
  | .mark id => do
    Lower.mark id
    return {}
  | .guarded id p => do
    if ← enter id then p.runWith enter leave else return {}
  | .expression t p => do
    if ← enter t.id then
      descend t
      let a ← p.runWith enter leave
      leave
      return a
    else return {}
  | .statement t p => do
    if ← enter t.id then
      tell (.statement t)
      descend t
      let a ← p.runWith enter leave
      leave
      return a
    else return {}
  | .fail e => throw e
  | .unlessEmpty before p after => return (← p.runWith enter leave).wrapped before after
  | .compact p => do
    let a ← p.runWith enter leave
    return { a with value := String.ofList (compactChars a.value.toList) }
  | .shownBefore p q => do
    let b ← q.runWith enter leave
    let a ← p.runWith enter leave
    return ⟨a.value ++ b.value, b.effects ++ a.effects⟩
  | .bind p => do
    let a ← p.runWith enter leave
    let t ← newTemp
    return ⟨t, a.effects ++ [.text (t ++ " = " ++ a.value ++ ";")]⟩
  | .closed header body => do
    let h ← header.runWith enter leave
    let b ← withFrames (fun _ => []) (body.runWith enter leave)
    return { value := h.value ++ inBraces (h.effects ++ b.effects) }
  | .effects p => return .ofCode (← p.runWith enter leave).effects
  | .line p => return (← p.runWith enter leave).asLine
  | .valueLine p => return (← p.runWith enter leave).asValueLine
  | .emit i => return .ofCode [i]
  | .jump j levels => return .ofCode [(← get).jump j levels]
  | .closeCase => do
    return .ofCode (if (← get).options.switchFallthrough then [] else [.text "break;"])
  | .ifThen condition thenBranch => do
    let c ← condition.runWith enter leave
    let l ← newLabels
    let t ← thenBranch.runWith enter leave
    return .ofCode (Shape.ifThen c l t.effects)
  | .ifThenElse condition thenBranch elseBranch => do
    let c ← condition.runWith enter leave
    let l ← newLabels
    let other ← newLabels
    let t ← thenBranch.runWith enter leave
    let e ← elseBranch.runWith enter leave
    return .ofCode (Shape.ifThenElse c l other.start t.effects e.effects)
  | .whileLoop condition body => do
    let l ← newLabels
    let round ← newLabels
    let c ← condition.runWith enter leave
    let b ← withFrames (.loop l.stop l.start :: ·) (body.runWith enter leave)
    return .ofCode (Shape.whileLoop c l round.start b.effects)
  | .doWhile body condition => do
    let l ← newLabels
    let next ← newLabels
    let b ← withFrames (.loop l.stop next.start :: ·) (body.runWith enter leave)
    let c ← condition.runWith enter leave
    return .ofCode (Shape.doWhile c l next.start b.effects)
  | .barrier condition => do
    let c ← condition.runWith enter leave
    let pass ← newLabels
    return .ofCode (Shape.barrier c pass.stop ((← get).jump .leave none))
  | .forLoop init barriers test step body => do
    let i ← init.runWith enter leave
    let l ← newLabels
    let round ← newLabels
    let next ← newLabels
    let g ← withFrames (.loop l.stop next.start :: ·) (barriers.runWith enter leave)
    let c ← test.runWith enter leave
    let b ← withFrames (.loop l.stop next.start :: ·) (body.runWith enter leave)
    let s ← step.runWith enter leave
    return .ofCode (Shape.forLoop i.effects (g.effects ++ Shape.test c round.start l.stop)
      s.effects l round.start next.start b.effects)
  | .endless init step body => do
    let i ← init.runWith enter leave
    let l ← newLabels
    let round ← newLabels
    let next ← newLabels
    let b ← withFrames (.loop l.stop next.start :: ·) (body.runWith enter leave)
    let s ← step.runWith enter leave
    return .ofCode (Shape.forLoop i.effects [] s.effects l round.start next.start b.effects)
  | .foreachLoop iterable binding body => do
    let i ← iterable.runWith enter leave
    let v ← binding.runWith enter leave
    let l ← newLabels
    let next ← newLabels
    let b ← withFrames (.loop l.stop next.start :: ·) (body.runWith enter leave)
    return .ofCode (Shape.foreachLoop i v l next.start b.effects)
  | .inSwitch p => withFrames (.switch :: ·) (p.runWith enter leave)
  | .apart p => withFrames (fun _ => []) (p.runWith enter leave)
  | .declared kind p => do
    let a ← p.runWith enter leave
    tell (.declaration kind a.effects.length)
    return a

/-- Runs a plan: **a node that was met before gives nothing**. -/
def Plan.run (p : Plan) : Lower Lowered :=
  p.runWith Lower.enter

end ThreeAddress.Lowering
