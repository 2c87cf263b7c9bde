import ThreeAddress.Grammar.Rule

/-!
# Attempts

While the grammar is matched, the rules that were tried in vain at the **furthest place
reached** are kept; a syntax error names them. A rule stands for the rules tried inside
it at the same place, except where there was only one of them: then that one says more.
Rules inside an atomic rule are not kept.

Nothing is forgotten on backtracking, and nothing here changes what matches.
-/

namespace ThreeAddress.Grammar

/-- The rules tried in vain at the furthest place, the latest first. -/
structure Attempts where
  place : Nat
  expected : List Rule
  unexpected : List Rule
deriving Repr, Inhabited

/-- How many attempts were known at some place before a rule was tried there. -/
structure Attempts.Mark where
  expected : Nat
  unexpected : Nat
deriving Repr

namespace Attempts

/-- Before anything was tried. -/
def none : Attempts :=
  ⟨0, [], []⟩

/-- How many attempts are known at `place`. -/
def mark (a : Attempts) (place : Nat) : Mark :=
  if place = a.place then ⟨a.expected.length, a.unexpected.length⟩ else ⟨0, 0⟩

/-- Both kinds together. -/
def Mark.total (m : Mark) : Nat :=
  m.expected + m.unexpected

/-- The oldest `n` of a list that has its latest entries first. -/
def oldest (n : Nat) (rs : List Rule) : List Rule :=
  rs.drop (rs.length - n)

/-- Adds a rule that failed, or that matched where it should not have. -/
def add (a : Attempts) (r : Rule) (negative : Bool) : Attempts :=
  if negative then { a with unexpected := r :: a.unexpected }
  else { a with expected := r :: a.expected }

/-- Records that `r` was tried in vain at `place`. What was tried inside it at the same
place, that is since `before`, is replaced by `r` unless it was a single rule. -/
def record (a : Attempts) (r : Rule) (place : Nat) (before : Mark) (negative : Bool) : Attempts :=
  if (a.mark place).total = before.total + 1 then a
  else if place < a.place then a
  else if place = a.place then
    add ⟨place, oldest before.expected a.expected, oldest before.unexpected a.unexpected⟩ r negative
  else add ⟨place, [], []⟩ r negative

/-- Sorted in declaration order, each rule once. -/
def listed (rs : List Rule) : List Rule :=
  (rs.mergeSort Rule.declaredBefore).eraseReps

/-- The names of the rules as an enumeration: `a`, `a or b`, `a, b, or c`. -/
def enumerate (rs : List Rule) : String :=
  match (rs.map Rule.name).reverse with
  | [] => ""
  | [a] => a
  | [b, a] => a ++ " or " ++ b
  | c :: cs => ", ".intercalate cs.reverse ++ ", or " ++ c

/-- What a syntax error says about the attempts. -/
def message (a : Attempts) : String :=
  match listed a.expected, listed a.unexpected with
  | [], [] => "unknown parsing error"
  | es, [] => "expected " ++ enumerate es
  | [], us => "unexpected " ++ enumerate us
  | es, us => "unexpected " ++ enumerate us ++ "; expected " ++ enumerate es

end Attempts

end ThreeAddress.Grammar
