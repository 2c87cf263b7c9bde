import ThreeAddress.Number.Layout
import ThreeAddress.Syntax.Node
import ThreeAddress.Text.Quoted

/-!
# Dumps

A syntax tree as lines of text, one field a line, with four more blanks for every level.
Positions are reduced to line and column.
-/

namespace ThreeAddress.Syntax

/-- One level deeper. -/
def indented (lines : List String) : List String :=
  lines.map ("    " ++ ·)

/-- Puts text before the first line. -/
def before (text : String) : List String → List String
  | [] => [text]
  | l :: ls => (text ++ l) :: ls

/-- Puts a comma after the last line. -/
def withComma : List String → List String
  | [] => [","]
  | [l] => [l ++ ","]
  | l :: ls => l :: withComma ls

/-- Items between an opening and a closing line, or on one line if there are none. -/
def enclosed (opening closing : String) (items : List (List String)) : List String :=
  if items.isEmpty then [opening ++ closing]
  else opening :: items.flatMap (fun i => indented (withComma i)) ++ [closing]

/-- The lines of something that may be missing. -/
def dumpOption : Option (List String) → List String
  | some lines => enclosed "Some(" ")" [lines]
  | none => ["None"]

/-- The lines of a list. -/
def dumpList (items : List (List String)) : List String :=
  enclosed "[" "]" items

/-- The lines of named fields between braces. -/
def dumpFields (name : String) (fields : List (String × List String)) : List String :=
  if fields.isEmpty then [name]
  else enclosed (name ++ " \x7b") "\x7d" (fields.map fun (f, ls) => before (f ++ ": ") ls)

/-- The lines of a field whose children are already dumped. -/
def Field.dump : Field (List String) → List String
  | .node n => n
  | .nodes ns => dumpList ns
  | .node? n => dumpOption n
  | .nodes? ns => dumpOption (ns.map dumpList)
  | .slots ns => dumpList (ns.map dumpOption)
  | .text s => [Text.quoted s]
  | .text? s => dumpOption (s.map fun s => [Text.quoted s])
  | .texts ss => dumpList (ss.map fun s => [Text.quoted s])
  | .flag b => [if b then "true" else "false"]
  | .number? n => dumpOption (n.map fun n => [toString n])
  | .integer n => [toString n]
  | .float x => [Double.Layout.dump.text x]
  | .word s => [s]

/-- The place of a node in its file. -/
def Node.position (n : Node) : String :=
  match n.location with
  | some l => toString l.line ++ ":" ++ toString l.column
  | none => "-"

/-- The lines of a syntax tree. -/
def Node.dump (n : Node) : List String :=
  n.fold fun n kind =>
    dumpFields "AstNode"
      [("id", [toString n.id]), ("at", [Text.quoted n.position]),
       ("kind", dumpFields kind.name (kind.fields.map fun (f, v) => (f, v.dump)))]

end ThreeAddress.Syntax
