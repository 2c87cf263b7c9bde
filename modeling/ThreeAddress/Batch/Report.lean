import ThreeAddress.Display.Box
import ThreeAddress.Display.Table
import ThreeAddress.Files.Path
import ThreeAddress.Json.Document

/-!
# Batch reports

What became of the files of a directory. A finished report has its files in the order of
their paths, whatever the order in which they were converted, and is shown as a table with a
summary or as a JSON document.
-/

namespace ThreeAddress.Batch

/-- What became of a file. -/
inductive Status where
  | ok
  | parseError
  | loweringError
  /-- The file could not be read, or its output not be written. -/
  | ioError
deriving DecidableEq, Repr, Inhabited

namespace Status

/-- All of them. -/
def all : List Status :=
  [.ok, .parseError, .loweringError, .ioError]

/-- The name in a report. -/
def name : Status → String
  | .ok => "ok"
  | .parseError => "parse_error"
  | .loweringError => "lowering_error"
  | .ioError => "io_error"

end Status

/-- What became of one file. -/
structure FileReport where
  input : Path
  /-- Where the listing or the error went, if anything was written. -/
  output : Option Path
  status : Status
  instructions : Nat
  message : Option String
deriving DecidableEq, Repr, Inhabited

namespace FileReport

/-- The report on a file that was converted. -/
def ok (input output : Path) (instructions : Nat) : FileReport :=
  ⟨input, some output, .ok, instructions, none⟩

/-- The report on a file that was not. -/
def failed (input : Path) (output : Option Path) (status : Status) (message : String) :
    FileReport :=
  ⟨input, output, status, 0, some message⟩

/-- The report as a document. -/
def json (f : FileReport) : Json :=
  .record [("input", .ofText f.input.text), ("output", .ofText? (f.output.map Path.text)),
    ("status", .ofText f.status.name), ("instructions", .ofNat f.instructions),
    ("message", .ofText? f.message)]

end FileReport

/-- What became of the files of a directory. -/
structure Report where
  root : Path
  outputRoot : Path
  startedAt : String
  finishedAt : Option String := none
  files : List FileReport := []
deriving DecidableEq, Repr, Inhabited

namespace Report

/-- The report with the files, sorted by their paths. -/
def finish (r : Report) (files : List FileReport) (time : String) : Report :=
  { r with
    finishedAt := some time
    files := files.mergeSort fun a b => a.input.le b.input }

/-- The number of files. -/
def total (r : Report) : Nat :=
  r.files.length

/-- The number of files with the given status. -/
def count (r : Report) (s : Status) : Nat :=
  r.files.countP (·.status == s)

/-- The number of files that were converted. -/
def succeeded (r : Report) : Nat :=
  r.count .ok

/-- The number of files that were not. -/
def failed (r : Report) : Nat :=
  r.total - r.succeeded

/-- The report on the file at a path. -/
def file? (r : Report) (p : Path) : Option FileReport :=
  r.files.find? (·.input.same p)

/-- The report as a document. -/
def json (r : Report) : Json :=
  .record [("root", .ofText r.root.text), ("output_root", .ofText r.outputRoot.text),
    ("started_at", .ofText r.startedAt), ("finished_at", .ofText? r.finishedAt),
    ("files", .array (r.files.map FileReport.json))]

/-- One row for each file. -/
def table (r : Report) : List String :=
  Display.table ["File", "Status", "Instructions", "Message"] <| r.files.map fun f =>
    [((f.input.under? r.root).getD f.input).text, f.status.name, toString f.instructions,
      f.message.getD ""]

/-- The width of the summary. -/
def summaryWidth : Nat := 64

/-- The number of files that failed, and why. -/
def failureLine (r : Report) : String :=
  "failed: " ++ toString r.failed ++ " (parse " ++ toString (r.count .parseError) ++ ", lowering "
    ++ toString (r.count .loweringError) ++ ", io " ++ toString (r.count .ioError) ++ ")"

/-- The totals in a box. -/
def summary (r : Report) : List String :=
  let lines := ["phptac batch", "input:  " ++ r.root.text, "output: " ++ r.outputRoot.text,
    "converted: " ++ toString r.succeeded]
  let lines := if r.failed = 0 then lines else lines ++ [r.failureLine]
  Display.box summaryWidth (.top :: lines.map .line ++ [.bottom])

end Report

end ThreeAddress.Batch
