import ThreeAddress.Grammar.Attempts
import ThreeAddress.Grammar.ParseTree
import ThreeAddress.Grammar.Php

/-!
# Matching

Runs the grammar on a text. `Pattern.run` follows the structure of a pattern; the rules
that it mentions are run through a parameter, so that `Rule.run` can tie the knot with a
bound on the depth of rule calls and on the rounds of a repetition. A reply tells
**matched**, **failed** and **exhausted** apart: the last one says that the bound was too
small and nothing about the text.

`parse` runs the whole grammar with a bound that grows with the text.
-/

namespace ThreeAddress.Grammar

/-- Whether blanks are skipped and nodes are made where a pattern is run. -/
inductive Atomicity where
  | spaced | atomic | compound
deriving DecidableEq, Repr

/-- Whether a pattern is run for its match or only to look ahead. -/
inductive Lookahead where
  | none | positive | negative
deriving DecidableEq, Repr

/-- Looking ahead inside a lookahead. -/
def Lookahead.ahead : Lookahead → Lookahead
  | .negative => .negative
  | _ => .positive

/-- Looking ahead for something that must not come. -/
def Lookahead.notAhead : Lookahead → Lookahead
  | .negative => .positive
  | _ => .negative

/-- The circumstances in which a pattern is run. -/
structure Scope where
  atomicity : Atomicity
  lookahead : Lookahead
deriving DecidableEq, Repr

/-- What running a pattern changes. -/
structure State where
  cursor : Cursor
  stack : List (List Char)
  attempts : Attempts

/-- The outcome of running a pattern. -/
inductive Reply where
  /-- The pattern matched and left these trees. -/
  | matched (s : State) (trees : List ParseTree)
  /-- The pattern does not match. -/
  | failed (a : Attempts)
  /-- The bound was reached. -/
  | exhausted

namespace Reply

/-- Goes on after a match and puts the trees together. -/
def andThen (r : Reply) (next : State → Reply) : Reply :=
  match r with
  | .matched s ts =>
    match next s with
    | .matched s' ts' => .matched s' (ts ++ ts')
    | r' => r'
  | r => r

/-- A match that reads up to `k`, or a failure. -/
def reading (s : State) : Option Cursor → Reply
  | some k => .matched { s with cursor := k } []
  | none => .failed s.attempts

end Reply

/-- A way to run something from a state. -/
abbrev Run := Scope → State → Reply

/-- Runs `step` until it fails, at most `rounds` times, and keeps what came before. The
trees of the rounds so far are given with the latest first. -/
def repeatRun (step : State → Reply) : Nat → List (List ParseTree) → State → Reply
  | 0, _, _ => .exhausted
  | rounds + 1, trees, s =>
    match step s with
    | .matched s' ts => repeatRun step rounds (ts :: trees) s'
    | .failed a => .matched { s with attempts := a } trees.reverse.flatten
    | .exhausted => .exhausted

/-- Equality of characters up to the case of ASCII letters. -/
def sameUpToCase (a b : Char) : Bool :=
  a.toLower == b.toLower

/-- Runs a pattern. `skip` reads the blanks between the parts of a pattern, `call` runs a
rule, and a repetition has at most `rounds` rounds after its first. -/
def Pattern.run (rounds : Nat) (skip : State → Reply) (call : Rule → Run) : Pattern → Run
  | .start, _, s => if s.cursor.index = 0 then .matched s [] else .failed s.attempts
  | .finish, _, s => if s.cursor.rest.isEmpty then .matched s [] else .failed s.attempts
  | .one c, _, s => .reading s (s.cursor.one? c.contains)
  | .literal text, _, s => .reading s (s.cursor.all? (· == ·) text)
  | .caseless text, _, s => .reading s (s.cursor.all? sameUpToCase text)
  | .rule r, sc, s => call r sc s
  | .seq p q, sc, s =>
    ((p.run rounds skip call sc s).andThen (between sc)).andThen (q.run rounds skip call sc)
  | .alt p q, sc, s =>
    match p.run rounds skip call sc s with
    | .failed a => q.run rounds skip call sc { s with attempts := a }
    | r => r
  | .many p, sc, s =>
    match p.run rounds skip call sc s with
    | .matched s' ts =>
      repeatRun (fun s => (between sc s).andThen (p.run rounds skip call sc)) rounds [ts] s'
    | .failed a => .matched { s with attempts := a } []
    | .exhausted => .exhausted
  | .maybe p, sc, s =>
    match p.run rounds skip call sc s with
    | .failed a => .matched { s with attempts := a } []
    | r => r
  | .ahead p, sc, s =>
    match p.run rounds skip call { sc with lookahead := sc.lookahead.ahead } s with
    | .matched s' _ => .matched { s with attempts := s'.attempts } []
    | r => r
  | .notAhead p, sc, s =>
    match p.run rounds skip call { sc with lookahead := sc.lookahead.notAhead } s with
    | .matched s' _ => .failed s'.attempts
    | .failed a => .matched { s with attempts := a } []
    | .exhausted => .exhausted
  | .push p, sc, s =>
    match p.run rounds skip call sc s with
    | .matched s' ts => .matched { s' with stack := s.cursor.textTo s'.cursor :: s'.stack } ts
    | r => r
  | .peek, _, s =>
    match s.stack with
    | top :: _ => .reading s (s.cursor.all? (· == ·) top)
    | [] => .failed s.attempts
  | .pop, _, s =>
    match s.stack with
    | top :: stack => .reading { s with stack := stack } (s.cursor.all? (· == ·) top)
    | [] => .failed s.attempts
where
  /-- Blanks count in an atomic or compound rule and are skipped in any other. -/
  between (sc : Scope) (s : State) : Reply :=
    if sc.atomicity = .spaced then skip s else .matched s []

/-- Reads blanks and comments, at most so many of them. -/
def skipBlanks (rounds : Nat) : State → Reply :=
  Pattern.run rounds (.matched · []) (fun _ _ s => .failed s.attempts)
    (.many (.alt blank comment)) ⟨.atomic, .none⟩

/-- The atomicity in which a rule counts as tried and leaves its node. -/
def Mode.outer : Mode → Atomicity → Atomicity
  | .compound, _ => .compound
  | .spaced, _ => .spaced
  | _, a => a

/-- The atomicity in which a rule's body is run. -/
def Mode.inner : Mode → Atomicity → Atomicity
  | .atomic, _ => .atomic
  | m, a => m.outer a

/-- Runs a rule whose body is run by `body`. A failure is recorded, and so is a match of
what should not come. -/
def Rule.enter (r : Rule) (mode : Mode) (body : Run) : Run := fun sc s =>
  let outer := mode.outer sc.atomicity
  let place := s.cursor.index
  let before := s.attempts.mark place
  let record (a : Attempts) : Attempts :=
    if outer = .atomic then a
    else a.record r place before (sc.lookahead == .negative)
  match body { sc with atomicity := mode.inner sc.atomicity } s with
  | .matched s' ts =>
    let s' := if sc.lookahead = .negative then { s' with attempts := record s'.attempts } else s'
    .matched s' (if outer = .atomic then ts else [⟨r, ⟨s.cursor, s'.cursor⟩, ts⟩])
  | .failed a => .failed (if sc.lookahead = .negative then a else record a)
  | .exhausted => .exhausted

/-- Runs a rule of the grammar. The bound limits the depth of rule calls, and what is left
of it the rounds of every repetition. -/
def Rule.run : Nat → Rule → Run
  | 0, _ => fun _ _ => .exhausted
  | bound + 1, r =>
    r.enter r.definition.mode
      (r.definition.body.run bound (skipBlanks bound) (Rule.run bound))

/-- A bound for a text of the given length: between two characters that are read no rule is
entered twice, and there are fewer than 256 rules. -/
def boundFor (length : Nat) : Nat :=
  (length + 1) * 256

/-- The outcome of matching a whole text. -/
inductive Parse where
  | tree (t : ParseTree)
  | unmatched (a : Attempts)
  | exhausted

/-- Matches a text with the whole grammar, within a bound. -/
def parseWithin (bound : Nat) (text : String) : Parse :=
  match Rule.run bound .script ⟨.spaced, .none⟩ ⟨.ofText text, [], .none⟩ with
  | .matched _ (t :: _) => .tree t
  | .matched s [] => .unmatched s.attempts
  | .failed a => .unmatched a
  | .exhausted => .exhausted

/-- Matches a text with the whole grammar. -/
def parse (text : String) : Parse :=
  parseWithin (boundFor text.length) text

end ThreeAddress.Grammar
