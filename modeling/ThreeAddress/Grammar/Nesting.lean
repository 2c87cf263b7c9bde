import ThreeAddress.Grammar.ParseTree

/-!
# Nesting

How deep the statements and expressions of a parse tree lie inside each other. The tree is
walked as a flat run of openings and closings, with a level and, for every open expression,
the number of its operators so far: **each operator adds a level** until its expression
closes, because it adds one to the tree that is built from it.

`ParseTree.firstTooDeep` finds the first place above a limit, before any syntax tree is
built.
-/

namespace ThreeAddress.Grammar

/-- A rule's text starts or stops. -/
inductive Edge where
  | opens (r : Rule) (start : Cursor)
  | closes (r : Rule)

namespace ParseTree

mutual

/-- The edges of a tree in the order of the text, put before `later`. -/
def edgesBefore (later : List Edge) : ParseTree → List Edge
  | ⟨r, e, children⟩ =>
    .opens r e.start :: edgesOfAllBefore (.closes r :: later) children

/-- The edges of trees that follow each other, put before `later`. -/
def edgesOfAllBefore (later : List Edge) : List ParseTree → List Edge
  | [] => later
  | t :: ts => edgesBefore (edgesOfAllBefore later ts) t

end

/-- The edges of a tree in the order of the text. -/
def edges (t : ParseTree) : List Edge :=
  t.edgesBefore []

end ParseTree

/-- A level of nesting, with the operators seen in each open expression, the innermost
first. -/
structure Nesting where
  level : Nat
  operators : List Nat
deriving DecidableEq, Repr

namespace Nesting

/-- Outside of everything. -/
def outside : Nesting :=
  ⟨0, []⟩

/-- The level where a rule starts. -/
def enter (n : Nesting) (r : Rule) : Nesting :=
  match r, n.operators with
  | .statement, _ => { n with level := n.level + 1 }
  | .expr, counts => ⟨n.level + 1, 0 :: counts⟩
  | r, count :: counts => if r.isOperator then ⟨n.level + 1, (count + 1) :: counts⟩ else n
  | _, [] => n

/-- The level after a rule. An expression takes its operators' levels with it. -/
def leave (n : Nesting) (r : Rule) : Nesting :=
  match r with
  | .statement => { n with level := n.level - 1 }
  | .expr => ⟨n.level - (1 + n.operators.headD 0), n.operators.tail⟩
  | _ => n

/-- The first start of a rule at a level above the limit. -/
def firstAbove (limit : Nat) : Nesting → List Edge → Option Cursor
  | _, [] => none
  | n, .opens r start :: es =>
    let n' := n.enter r
    if limit < n'.level then some start else firstAbove limit n' es
  | n, .closes r :: es => firstAbove limit (n.leave r) es

end Nesting

/-- The first place of the tree that is nested deeper than the limit. -/
def ParseTree.firstTooDeep (t : ParseTree) (limit : Nat) : Option Cursor :=
  Nesting.firstAbove limit .outside t.edges

end ThreeAddress.Grammar
