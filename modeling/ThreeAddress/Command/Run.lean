import ThreeAddress.Batch.Config
import ThreeAddress.Batch.Convert
import ThreeAddress.Command.Help
import ThreeAddress.Syntax.Dump

/-!
# Running commands

What the program does for a command line, in any world. The result is the exit code: zero for
success, one for a failure and two for a command line that makes no sense.
-/

namespace ThreeAddress.Command

variable {m : Type → Type} [Monad m] [World m]

/-- Prints a line. -/
def printLine (s : String) : m Unit :=
  World.print (s ++ "\n")

/-- Tells why a command failed, which makes the exit code one. -/
def fail (s : String) : m Nat := do
  World.complain (s ++ "\n")
  return 1

/-- Reads the configuration at a path. -/
def loadConfig (path : String) : m (Except Config.Error Config) := do
  match ← World.readText (.ofText path) with
  | .error fault => return .error (.unreadable fault)
  | .ok text => return (Config.ofText text).mapError .faulty

/-- The options for a batch: switches go before the configuration. -/
def BatchLine.options (b : BatchLine) (c : Config) : Batch.Options :=
  let o := c.batchOptions
  { o with
    jobs := b.jobs.getD o.jobs
    wrapTags := o.wrapTags && !b.noWrap
    lower.switchFallthrough := o.lower.switchFallthrough || b.fallthrough }

/-- Converts a directory and prints the report. -/
def runBatch (shown : Severity) (b : BatchLine) : m Nat := do
  let config ← match b.config with
    | some path => loadConfig path
    | none => pure (.ok {})
  match config with
  | .error e => fail ("Error loading config: " ++ e.text)
  | .ok config =>
    match ← Batch.convertFolder (.ofText b.dir) (b.options config) shown with
    | .error message => fail ("Error: " ++ message)
    | .ok report =>
      if b.json then printLine report.json.pretty
      else
        for line in report.table ++ report.summary do
          printLine line
      return 0

/-- The listing of a script as a document. -/
def listingJson (s : Script) (l : Listing) : Json :=
  .record [("file", .ofText s.name), ("instructions", .array (l.lines.map .ofText)),
    ("labels", .array (l.labels.map .ofText))]

/-- Lowers a file and prints its listing or writes it to another file. -/
def runLower (shown : Severity) (l : LowerLine) : m Nat := do
  match ← Script.load (.ofText l.file) with
  | .error missing => fail missing.diagnostic.report
  | .ok script =>
    let c := compilation script { switchFallthrough := l.fallthrough }
    for entry in c.log script 0 do
      World.tell shown entry
    match c.result with
    | .error e => fail e.diagnostic.report
    | .ok listing =>
      let text := if l.json then (listingJson script listing).pretty else listing.render
      match l.output with
      | none =>
        printLine text
        return 0
      | some path =>
        match ← World.writeText (.ofText path) text with
        | .ok () => return 0
        | .error fault => fail ("Error writing " ++ path ++ ": " ++ fault.text)

/-- Prints the syntax tree of a file. -/
def runAst (shown : Severity) (file : String) : m Nat := do
  match ← Script.load (.ofText file) with
  | .error missing => fail missing.diagnostic.report
  | .ok script =>
    let o : Lowering.Options := {}
    World.tell shown (parsingEntry script)
    match Syntax.parse script o.maxDepth with
    | .error e => fail e.diagnostic.report
    | .ok tree =>
      for line in tree.dump do
        printLine line
      return 0

/-- Does what a command line asks for. -/
def Invocation.run (i : Invocation) : m Nat :=
  let shown := Severity.ofVerbosity i.verbosity
  match i.line with
  | .batch b => runBatch shown b
  | .lower l => runLower shown l
  | .ast file => runAst shown file
  | .nothing => do
    printLine "No valid subcommand was used. Use --help for more information."
    return 1

/-- Runs the program on the given arguments. -/
def run (args : List String) : m Nat := do
  match read args with
  | .ok invocation => invocation.run
  | .error .version =>
    World.print versionText
    return 0
  | .error (.help command) =>
    World.print (helpText command)
    return 0
  | .error (.usage message) =>
    World.complain ("error: " ++ message ++ "\n")
    return 2

end ThreeAddress.Command
