import ThreeAddress.Source.Location

/-!
# Diagnostics

What is told about a script that cannot be read, parsed or lowered. Every kind of error
has its own type and becomes a `Diagnostic` when it is reported; this module holds the
three texts that a diagnostic is shown with.
-/

namespace ThreeAddress

/-- How serious a diagnostic is. -/
inductive Level where
  | info | warning | error | critical
deriving DecidableEq, Repr, Inhabited

/-- The level's name in a report. -/
def Level.name : Level → String
  | .info => "INFO"
  | .warning => "WARNING"
  | .error => "ERROR"
  | .critical => "CRITICAL"

/-- A message about a script, with the part of the program that raised it and the place
in the source, where there is one. -/
structure Diagnostic where
  level : Level
  message : String
  issuer : String
  location : Option Location
  span : Option Span
deriving DecidableEq, Repr, Inhabited

namespace Diagnostic

/-- The message, followed by the location if there is one. -/
def text (d : Diagnostic) : String :=
  match d.location with
  | some l => d.message ++ " (at " ++ l.text ++ ")"
  | none => d.message

/-- The fields of a report line, divided by bars. -/
def joined (fields : List String) : String :=
  " | ".intercalate ("PHPTAC" :: fields)

/-- One line with the level, the location and the message. -/
def report (d : Diagnostic) : String :=
  joined [d.level.name, (d.location.map Location.text).getD "unknown location", d.message]

/-- One line with everything that the diagnostic holds. -/
def detail (d : Diagnostic) : String :=
  joined [d.level.name, (d.location.map Location.text).getD "unknown", d.issuer,
    (d.span.map Span.text).getD "span:none", d.message]

end Diagnostic

end ThreeAddress
