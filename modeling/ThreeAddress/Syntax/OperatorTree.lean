/-!
# Operator trees

Folds a flat run of operands and operators into a tree. Every operator has a power; an
operand goes to the operator with the higher power, and between equal powers to the left or
to the right one, as the operator says. A prefix operator takes **everything down to its own
power**, also where it stands in the right operand of a tighter one.

The run is read once, with a stack of operators that still wait for their right operand.
-/

namespace ThreeAddress.Syntax

/-- The role of a token in a run. -/
inductive Affix where
  | operand
  | before (power : Nat)
  | after (power : Nat)
  | between (power : Nat) (groupsRight : Bool)
deriving DecidableEq, Repr

/-- A run of tokens with its grouping. -/
inductive OperatorTree (α : Type) where
  | leaf (a : α)
  | before (op : α) (t : OperatorTree α)
  | after (t : OperatorTree α) (op : α)
  | between (l : OperatorTree α) (op : α) (r : OperatorTree α)

namespace OperatorTree

variable {α : Type}

/-- An operator that waits for its right operand. An operator after that operand has to
have a higher power than `power` to get it. -/
inductive Pending (α : Type) where
  | before (op : α) (power : Nat)
  | between (l : OperatorTree α) (op : α) (power : Nat)

/-- The power of the operator that waits. -/
def Pending.power : Pending α → Nat
  | .before _ p => p
  | .between _ _ p => p

/-- Gives the operator its right operand. -/
def Pending.close : Pending α → OperatorTree α → OperatorTree α
  | .before op _, t => .before op t
  | .between l op _, t => .between l op t

/-- Closes the operators that an operator of the given power does not take from. -/
def closeAbove (power : Nat) : List (Pending α) → OperatorTree α →
    List (Pending α) × OperatorTree α
  | [], t => ([], t)
  | p :: ps, t => if power ≤ p.power then closeAbove power ps (p.close t) else (p :: ps, t)

/-- Closes all operators. -/
def closeAll (ps : List (Pending α)) (t : OperatorTree α) : OperatorTree α :=
  ps.foldl (fun t p => p.close t) t

mutual

/-- Reads on where an operand has to come. -/
def wantOperand (affix : α → Affix) (ps : List (Pending α)) :
    List α → Option (OperatorTree α)
  | [] => none
  | a :: as =>
    match affix a with
    | .operand => haveOperand affix ps (.leaf a) as
    | .before power => wantOperand affix (.before a (power - 1) :: ps) as
    | _ => none

/-- Reads on after an operand. -/
def haveOperand (affix : α → Affix) (ps : List (Pending α)) (t : OperatorTree α) :
    List α → Option (OperatorTree α)
  | [] => some (closeAll ps t)
  | a :: as =>
    match affix a with
    | .after power =>
      let (ps, t) := closeAbove power ps t
      haveOperand affix ps (.after t a) as
    | .between power groupsRight =>
      let (ps, t) := closeAbove power ps t
      wantOperand affix (.between t a (if groupsRight then power - 1 else power) :: ps) as
    | _ => none

end

/-- The tree of a run; `none` if operands and operators do not alternate as they should. -/
def ofTokens? (affix : α → Affix) (tokens : List α) : Option (OperatorTree α) :=
  wantOperand affix [] tokens

/-- The run that a tree was folded from. -/
def tokens : OperatorTree α → List α
  | .leaf a => [a]
  | .before op t => op :: t.tokens
  | .after t op => t.tokens ++ [op]
  | .between l op r => l.tokens ++ op :: r.tokens

end OperatorTree

end ThreeAddress.Syntax
