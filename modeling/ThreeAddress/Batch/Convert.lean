import ThreeAddress.Batch.Options
import ThreeAddress.Batch.Report
import ThreeAddress.Compilation
import ThreeAddress.Source.Load

/-!
# Converting a directory

Every script below a directory is lowered by itself, and its listing is written under the
output directory at the same place. **A script that cannot be lowered never stops the run**:
the error is written in place of the listing, and the report tells of it.
-/

namespace ThreeAddress.Batch

/-! ## Places -/

/-- Whether a character divides the names of a path. -/
def isSeparator (c : Char) : Bool :=
  c == '/' || c == '\\'

/-- The output directory: the suffix follows the name of the input directory, without the
separators at its end unless there is nothing else. -/
def outputRoot (dir : Path) (suffix : String) : Path :=
  let name := dir.text.toList
  let base := (name.reverse.dropWhile isSeparator).reverse
  .ofText (String.ofList (if base.isEmpty then name else base) ++ suffix)

/-- What the paths found below a directory start with. Dots in front are left out, and there
is no such path if only a slash follows them. -/
def searchRoot? (dir : Path) : Option Path :=
  match dir.parts with
  | (.root, body) => some (.ofParts .root (body.filter (· ≠ "")))
  | (.nothing, body) => some ⟨body.filter (· ≠ "")⟩
  | (.here, body) =>
    let body := body.dropWhile (· == ".")
    if body.head? = some "" then none else some ⟨body.filter (· ≠ "")⟩

/-- Whether the last name is that of a script. -/
def isScriptName (names : List String) : Bool :=
  names.getLast?.any (·.endsWith ".php")

/-- Where the output for a file goes. -/
def outputPath (root outRoot input : Path) : Path :=
  outRoot.join ((input.under? root).getD input)

/-! ## Texts -/

/-- The text to write for a listing. -/
def listingText (o : Options) (l : Listing) : String :=
  if o.wrapTags then "<?php\n" ++ l.render ++ "\n?>" else l.render

/-- What is written and reported in place of a listing. -/
structure FailureText where
  status : Status
  message : String
  written : String
deriving DecidableEq, Repr, Inhabited

/-- What is written and reported for a failure. The place of a syntax error is left out. -/
def FailureText.ofFailure : Failure → FailureText
  | .syntactic e =>
    let message := e.diagnostic.message
    ⟨.parseError, message, "Parse Error: " ++ message⟩
  | .lowering e =>
    let message := e.diagnostic.text
    ⟨.loweringError, message, "Lowering Error: " ++ message⟩

/-! ## Runs -/

section

variable {m : Type → Type} [Monad m] [World m]

/-- The scripts below a directory, in the order of their paths. -/
def findScripts (dir : Path) : m (List Path) := do
  match searchRoot? dir with
  | none => return []
  | some root =>
    if ← World.isFolder dir then
      let found := (← World.filesBelow dir).filter isScriptName
      return (found.map fun names => root.join ⟨names⟩).mergeSort Path.le
    else return []

/-- The conversion of one directory. -/
structure Conversion where
  root : Path
  outputRoot : Path
  options : Options
  shown : Severity
deriving DecidableEq, Repr, Inhabited

/-- Writes the output of one file. The report is replaced if that fails. -/
def Conversion.write (t : Conversion) (report : FileReport) (output : Path) (text : String) :
    m FileReport := do
  match ← writeWithFolders output text with
  | .ok () => return report
  | .error fault =>
    World.tell t.shown ⟨.warn, "could not write " ++ output.text ++ ": " ++ fault.text⟩
    return .failed report.input none .ioError ("write error: " ++ fault.text)

/-- Converts one file, after others that built so many nodes. Gives the number of nodes that
were built then. -/
def Conversion.convert (t : Conversion) (earlier : Nat) (input : Path) : m (FileReport × Nat) := do
  let output := outputPath t.root t.outputRoot input
  World.tell t.shown ⟨.info, "converting " ++ input.text⟩
  match ← Script.load input with
  | .error missing =>
    World.tell t.shown ⟨.warn, missing.diagnostic.detail⟩
    return (.failed input none .ioError missing.diagnostic.message, earlier)
  | .ok script =>
    let c := compilation script t.options.lower
    for entry in c.log script earlier do
      World.tell t.shown entry
    let report ← match c.result with
      | .ok listing =>
        t.write (.ok input output listing.size) output (listingText t.options listing)
      | .error e => do
        let f := FailureText.ofFailure e
        World.tell t.shown ⟨.warn, input.text ++ ": " ++ f.written⟩
        t.write (.failed input (some output) f.status f.message) output f.written
    return (report, earlier + c.nodes)

/-- Converts files one after another. -/
def Conversion.convertAll (t : Conversion) (earlier : Nat) : List Path → m (List FileReport)
  | [] => return []
  | input :: rest => do
    let (report, earlier) ← t.convert earlier input
    return report :: (← t.convertAll earlier rest)

/-- Converts every script below a directory, if there is one. -/
def convertFolder (dir : Path) (o : Options) (shown : Severity) : m (Except String Report) := do
  if !(← World.isFolder dir) then return .error ("not a directory: " ++ dir.text)
  let t : Conversion := ⟨dir, outputRoot dir o.outputSuffix, o, shown⟩
  let inputs ← findScripts dir
  World.tell shown ⟨.info,
    "found " ++ toString inputs.length ++ " php files under " ++ dir.text⟩
  let report : Report := ⟨dir, t.outputRoot, ← World.now, none, []⟩
  let files ← t.convertAll 0 inputs
  let report := report.finish files (← World.now)
  World.tell shown ⟨.info, "converted " ++ toString report.succeeded ++ " of "
    ++ toString report.total ++ " files into " ++ t.outputRoot.text⟩
  return .ok report

end

end ThreeAddress.Batch
