import ThreeAddress.Grammar.Rule

/-!
# Patterns

A `Pattern` says what a grammar rule asks of the text. Choice is ordered and
repetition is greedy: once a branch has matched, no other branch is tried in its
place. Blanks and comments between the parts of `seq` and between the rounds of
`many` are skipped unless the rule is atomic, so no pattern mentions them.

`push`, `peek` and `pop` keep a stack of texts, which is how a heredoc finds the
label that closes it.
-/

namespace ThreeAddress.Grammar

/-- The classes of characters that a pattern may ask for. All but `any` are ASCII. -/
inductive CharClass where
  | any | letter | digit | alphanumeric | hexDigit | octalDigit | binaryDigit
deriving DecidableEq, Repr

namespace CharClass

/-- Whether a character belongs to the class. -/
def contains : CharClass → Char → Bool
  | .any, _ => true
  | .letter, c => c.isAlpha
  | .digit, c => c.isDigit
  | .alphanumeric, c => c.isAlphanum
  | .hexDigit, c => c.isDigit || ('a' ≤ c && c ≤ 'f') || ('A' ≤ c && c ≤ 'F')
  | .octalDigit, c => '0' ≤ c && c ≤ '7'
  | .binaryDigit, c => c = '0' || c = '1'

end CharClass

/-- What a rule asks of the text. -/
inductive Pattern where
  /-- The beginning of the text. -/
  | start
  /-- The end of the text. -/
  | finish
  /-- One character of a class. -/
  | one (c : CharClass)
  /-- Exactly these characters. -/
  | literal (text : List Char)
  /-- These characters, where an ASCII letter may have either case. -/
  | caseless (text : List Char)
  /-- A named rule. -/
  | rule (r : Rule)
  /-- The first, then the second. -/
  | seq (first second : Pattern)
  /-- The first, or else the second. -/
  | alt (first second : Pattern)
  /-- As often as it matches. -/
  | many (p : Pattern)
  /-- Once, or not at all. -/
  | maybe (p : Pattern)
  /-- Matches here, and nothing is read. -/
  | ahead (p : Pattern)
  /-- Does not match here, and nothing is read. -/
  | notAhead (p : Pattern)
  /-- Matches, and the text it read is put on the stack. -/
  | push (p : Pattern)
  /-- The text on top of the stack. -/
  | peek
  /-- The text on top of the stack, which is then taken off. -/
  | pop
deriving Repr, Inhabited

instance : Coe Rule Pattern := ⟨Pattern.rule⟩

instance : Coe CharClass Pattern := ⟨Pattern.one⟩

instance : Coe String Pattern := ⟨fun s => Pattern.literal s.toList⟩

namespace Pattern

/-- All of them, one after the other. -/
def sequence : List Pattern → Pattern
  | [] => .literal []
  | [p] => p
  | p :: ps => .seq p (sequence ps)

/-- The first one that matches. -/
def firstOf : List Pattern → Pattern
  | [] => .notAhead (.literal [])
  | [p] => p
  | p :: ps => .alt p (firstOf ps)

/-- As often as it matches, and at least once. -/
def many1 (p : Pattern) : Pattern :=
  .seq p (.many p)

/-- A letter, a digit or an underscore. -/
def wordChar : Pattern :=
  .alt (.one .alphanumeric) "_"

/-- No word goes on here. -/
def wordEnd : Pattern :=
  .notAhead wordChar

/-- A whole word, in any case. -/
def word (w : String) : Pattern :=
  .seq (.caseless w.toList) wordEnd

/-- The first of the words that the text begins with, as a whole word. -/
def wordOf (ws : List String) : Pattern :=
  .seq (firstOf (ws.map fun w => .caseless w.toList)) wordEnd

/-- One or more, with commas between them. -/
def commaList (p : Pattern) : Pattern :=
  .seq p (.many (.seq "," p))

end Pattern

/-- How a rule treats blanks, and whether the rules below it leave nodes in the tree. -/
inductive Mode where
  /-- As in the rule that calls it. -/
  | plain
  /-- Blanks count, and the rules below leave no nodes. -/
  | atomic
  /-- Blanks count, and the rules below leave nodes. -/
  | compound
  /-- Blanks are skipped, whatever the calling rule does. -/
  | spaced
deriving DecidableEq, Repr

/-- The right-hand side of a rule. -/
structure Definition where
  mode : Mode
  body : Pattern
deriving Repr

namespace Definition

/-- A rule that treats blanks as its caller does. -/
def plain (p : Pattern) : Definition :=
  ⟨.plain, p⟩

/-- A rule whose text is one token. -/
def atomic (p : Pattern) : Definition :=
  ⟨.atomic, p⟩

/-- A rule in which blanks count and whose parts are kept. -/
def compound (p : Pattern) : Definition :=
  ⟨.compound, p⟩

/-- A rule in which blanks are skipped again. -/
def spaced (p : Pattern) : Definition :=
  ⟨.spaced, p⟩

end Definition

end ThreeAddress.Grammar
