import ThreeAddress.Grammar.Rule
import ThreeAddress.Source.Extent

/-!
# Parse trees

What a match of the grammar leaves behind: the rules that matched, each with the stretch of
text that it matched and the trees of the rules inside it.

`ParseTree.annotate` computes a value for every rule from the values of the rules inside it.
-/

namespace ThreeAddress.Grammar

/-- A rule that matched a stretch of the source. -/
structure ParseTree where
  rule : Rule
  extent : Extent
  children : List ParseTree
deriving Inhabited

/-- A parse tree with a value at every rule. -/
structure Annotated (α : Type) where
  rule : Rule
  extent : Extent
  value : α
  children : List (Annotated α)

namespace ParseTree

mutual

/-- Gives every rule the value that `f` computes from the annotated trees inside it. -/
def annotate {α : Type} (f : Rule → Extent → List (Annotated α) → α) : ParseTree → Annotated α
  | ⟨r, e, children⟩ => ⟨r, e, f r e (annotateAll f children), annotateAll f children⟩

/-- `annotate` for trees that follow each other. -/
def annotateAll {α : Type} (f : Rule → Extent → List (Annotated α) → α) :
    List ParseTree → List (Annotated α)
  | [] => []
  | t :: ts => t.annotate f :: annotateAll f ts

end

end ParseTree

namespace Annotated

variable {α : Type}

/-- The text that the rule matched. -/
def text (t : Annotated α) : String :=
  t.extent.text

/-- The text that the rule matched, in lower case. -/
def word (t : Annotated α) : String :=
  t.text.map Char.toLower

/-- The name of a matched variable, without the dollar sign. -/
def variableName (t : Annotated α) : String :=
  String.ofList (t.extent.chars.dropWhile (· == '$'))

/-- The children that are not keywords. The grammar needs those as word boundaries, and
they carry nothing else. -/
def parts (t : Annotated α) : List (Annotated α) :=
  t.children.filter (!·.rule.isKeyword)

/-- Whether one of the children is the given keyword or marker. -/
def has (t : Annotated α) (r : Rule) : Bool :=
  t.children.any (·.rule == r)

/-- The parts that the given rule matched. -/
def partsOf (t : Annotated α) (r : Rule) : List (Annotated α) :=
  t.parts.filter (·.rule == r)

end Annotated

end ThreeAddress.Grammar
