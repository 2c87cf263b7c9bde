/-!
# Log entries

What the program tells about its work besides its results. An entry has a severity, and a
reader who asks for some severity sees everything at least as severe.
-/

namespace ThreeAddress

/-- How important a log entry is, the most important first. -/
inductive Severity where
  | error | warn | info | debug | trace
deriving DecidableEq, Repr, Inhabited

namespace Severity

/-- The name in a log line. -/
def name : Severity → String
  | .error => "ERROR"
  | .warn => "WARN"
  | .info => "INFO"
  | .debug => "DEBUG"
  | .trace => "TRACE"

/-- Whether entries of severity `s` are shown when `limit` is asked for. -/
def shownAt (s limit : Severity) : Bool :=
  s.ctorIdx ≤ limit.ctorIdx

end Severity

/-- One thing told. -/
structure LogEntry where
  severity : Severity
  message : String
deriving DecidableEq, Repr, Inhabited

/-- The entry as a line of the log, with the names of severities in one column. -/
def LogEntry.line (e : LogEntry) : String :=
  "[" ++ e.severity.name.pushn ' ' (5 - e.severity.name.length) ++ "] " ++ e.message

/-- The least severe entries to show, by how often more of them were asked for. -/
def Severity.ofVerbosity : Nat → Severity
  | 0 => .warn
  | 1 => .info
  | 2 => .debug
  | _ => .trace

end ThreeAddress
