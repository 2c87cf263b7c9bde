import ThreeAddress.Lowering.Script
import ThreeAddress.Syntax.Parse

/-!
# Compilations

The whole way from a script to its listing. A compilation numbers the nodes of its syntax
tree from one on; where scripts are compiled one after another, only the log shows how many
nodes the earlier ones had, and **the result of a compilation depends on its own script and
options alone**.
-/

namespace ThreeAddress

/-- Why a script has no listing. -/
inductive Failure where
  | syntactic (e : Syntax.SyntaxError)
  | lowering (e : Lowering.LoweringError)

/-- The failure as a diagnostic. -/
def Failure.diagnostic : Failure → Diagnostic
  | .syntactic e => e.diagnostic
  | .lowering e => e.diagnostic

/-- What a script comes to. -/
structure Compilation where
  result : Except Failure Listing
  /-- What happened while the script was lowered. -/
  events : List Lowering.Event
  /-- The number of nodes that were built. -/
  nodes : Nat

/-- Parses and lowers a script. -/
def compilation (s : Script) (o : Lowering.Options) : Compilation :=
  match Syntax.parseFrom 1 s o.maxDepth with
  | (.error e, next) => ⟨.error (.syntactic e), [], next - 1⟩
  | (.ok tree, next) =>
    let (listing, events) := Lowering.listingWithEvents tree o
    ⟨listing.mapError .lowering, events, next - 1⟩

/-- The listing of a script. -/
def compile (s : Script) (o : Lowering.Options) : Except Failure Listing :=
  (compilation s o).result

/-- The log entry that the parsing of a script starts with. -/
def parsingEntry (s : Script) : LogEntry :=
  ⟨.debug, "parsing " ++ s.name⟩

/-- What the log tells of a compilation after others that built so many nodes. -/
def Compilation.log (c : Compilation) (s : Script) (earlier : Nat) : List LogEntry :=
  parsingEntry s :: c.events.map fun e => (e.later earlier).entry

end ThreeAddress
