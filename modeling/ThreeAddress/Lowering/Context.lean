import Std.Data.HashSet
import ThreeAddress.Listing
import ThreeAddress.Log
import ThreeAddress.Lowering.Error
import ThreeAddress.Lowering.Options
import ThreeAddress.Syntax.Node

/-!
# Lowering contexts

The state of lowering one script: how many temporaries and labels were handed out, which
nodes were met, what a `break` or `continue` leaves, and how deep the current node lies.
**A node is lowered once**: whoever meets it again gets nothing.

Lowering can fail, and keeps the state that it had reached.
-/

namespace ThreeAddress.Lowering

open Syntax (Node)

/-- Something that a `break` or `continue` can leave. -/
inductive Frame where
  | loop (breakTo continueTo : String)
  /-- A switch stays in braces, so it is left by a plain `break`. -/
  | switch
deriving DecidableEq, Repr, Inhabited

/-- The two labels of one construct. -/
structure Labels where
  start : String
  stop : String
deriving DecidableEq, Repr, Inhabited

/-- The labels with the given number. -/
def Labels.ofNat (n : Nat) : Labels :=
  ⟨"L" ++ toString n, "L" ++ toString n ++ "_end"⟩

/-- The temporary with the given number. -/
def temporary (n : Nat) : String :=
  "t" ++ toString n

/-- What a node is called and where it stands. -/
structure Tag where
  id : Nat
  kind : String
  location : Option Location
  span : Option Span
deriving DecidableEq, Repr, Inhabited

/-- The kind and the number of the node, and where it stands. -/
def Tag.text (t : Tag) : String :=
  let here := t.kind ++ "#" ++ toString t.id
  match t.location with
  | some l => here ++ " at " ++ l.text
  | none => here

/-- The tag of a node. -/
def tagOf (n : Node) : Tag :=
  ⟨n.id, n.kind.name, n.location, n.span⟩

/-- An error about the node with the tag. -/
def Tag.error (t : Tag) (cause : LoweringError.Cause) : LoweringError :=
  ⟨cause, t.location, t.span⟩

/-- A step of lowering that a log can tell of. -/
inductive Event where
  | temporary (n : Nat)
  | labels (n : Nat)
  | statement (t : Tag)
  | declaration (kind : String) (size : Nat)
  | script (t : Tag) (size : Nat)
deriving DecidableEq, Repr, Inhabited

/-- The event as it would be with so many more nodes built before it. -/
def Event.later (nodes : Nat) : Event → Event
  | .statement t => .statement { t with id := t.id + nodes }
  | .script t size => .script { t with id := t.id + nodes } size
  | e => e

/-- The log entry of an event. -/
def Event.entry : Event → LogEntry
  | .temporary n => ⟨.trace, "allocated temp " ++ Lowering.temporary n⟩
  | .labels n => ⟨.trace, "allocated label pair " ++ (Labels.ofNat n).start⟩
  | .statement t => ⟨.debug, "lowering " ++ t.text⟩
  | .declaration kind size =>
    ⟨.debug, "lowered declaration " ++ kind ++ " into " ++ toString size ++ " instructions"⟩
  | .script t size =>
    ⟨.debug, "lowered " ++ t.text ++ " into " ++ toString size ++ " instructions"⟩

/-- The state of lowering a script. -/
structure Context where
  /-- The number of the next temporary. -/
  temps : Nat := 0
  /-- The number of the next labels. -/
  labels : Nat := 0
  /-- The nodes met so far. -/
  visited : Std.HashSet Nat := {}
  /-- What encloses the current statement, the innermost first. -/
  frames : List Frame := []
  /-- The number of nodes around the current one. -/
  depth : Nat := 0
  options : Options := {}
  /-- What happened so far, the latest first. -/
  events : List Event := []

/-- The two ways to leave a round of a loop. -/
inductive Jump where
  | leave
  | next
deriving DecidableEq, Repr, Inhabited

/-- The keyword of a jump. -/
def Jump.keyword : Jump → String
  | .leave => "break"
  | .next => "continue"

namespace Context

/-- The frame that a jump over `levels` frames ends at, the innermost being the first. -/
def frame? (c : Context) (levels : Nat) : Option Frame :=
  c.frames[max levels 1 - 1]?

/-- The instruction of a jump. A switch is left the same way by both jumps, and a jump that
nothing encloses stays as it was written. -/
def jump (c : Context) (j : Jump) (levels : Option Nat) : Instruction :=
  match c.frame? (levels.getD 1) with
  | some (.loop breakTo continueTo) =>
    .goto (match j with | .leave => breakTo | .next => continueTo)
  | some .switch => .text "break;"
  | none =>
    match levels with
    | some n => .text (j.keyword ++ " " ++ toString n ++ ";")
    | none => .text (j.keyword ++ ";")

end Context

/-- Lowering: it changes the context and may fail. -/
abbrev Lower := ExceptT LoweringError (StateM Context)

namespace Lower

/-- Notes that something happened. -/
def tell (e : Event) : Lower Unit :=
  modify fun c => { c with events := e :: c.events }

/-- A fresh temporary. -/
def newTemp : Lower String := do
  let n := (← get).temps
  modify fun c => { c with temps := n + 1 }
  tell (.temporary n)
  return temporary n

/-- Fresh labels. -/
def newLabels : Lower Labels := do
  let n := (← get).labels
  modify fun c => { c with labels := n + 1 }
  tell (.labels n)
  return .ofNat n

/-- Whether the node was met before. -/
def seen (id : Nat) : Lower Bool :=
  return (← get).visited.contains id

/-- Notes that the node was met. -/
def mark (id : Nat) : Lower Unit :=
  modify fun c => { c with visited := c.visited.insert id }

/-- Notes that the node is met, and tells whether that is for the first time. -/
def enter (id : Nat) : Lower Bool := do
  let known ← seen id
  mark id
  return !known

/-- Goes one level down, to the node with the tag. -/
def descend (t : Tag) : Lower Unit := do
  let c ← get
  if c.options.maxDepth ≤ c.depth then throw (t.error (.tooDeep c.options.maxDepth))
  else set { c with depth := c.depth + 1 }

/-- Goes back one level. -/
def ascend : Lower Unit :=
  modify fun c => { c with depth := c.depth - 1 }

/-- Lowers something inside other frames. The frames are as before afterwards, also if it
fails. -/
def withFrames {α : Type} (f : List Frame → List Frame) (body : Lower α) : Lower α :=
  fun c =>
    let (r, c') := body { c with frames := f c.frames }
    (r, { c' with frames := c.frames })

end Lower

end ThreeAddress.Lowering
