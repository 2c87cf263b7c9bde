import ThreeAddress.Diagnostic
import ThreeAddress.Text.Blank
import ThreeAddress.Text.Quoted

/-!
# Scripts

A script is the source text of one file with the name that diagnostics call it by.
-/

namespace ThreeAddress

/-- The source text of one file. -/
structure Script where
  name : String
  path : String
  content : String
deriving DecidableEq, Repr, Inhabited

namespace Script

/-- A script that is not kept in a file; its name stands for its path. -/
def ofSource (name content : String) : Script :=
  ⟨name, name, content⟩

/-- Whether there is nothing but white space in the script. -/
def isEmpty (s : Script) : Bool :=
  Text.allBlank s.content

/-- One line that names the script. -/
def text (s : Script) : String :=
  "Script: " ++ s.name ++ " at " ++ Text.quotedPath s.path

end Script

/-- A script that could not be read, and why. -/
structure MissingScript where
  path : String
  reason : String
deriving DecidableEq, Repr, Inhabited

namespace MissingScript

/-- One line that names the missing script. -/
def text (m : MissingScript) : String :=
  "Missing script at " ++ Text.quotedPath m.path ++ " (" ++ m.reason ++ ")"

/-- The diagnostic that reports the missing script. -/
def diagnostic (m : MissingScript) : Diagnostic where
  level := .error
  message := "Could not read script at " ++ Text.quotedPath m.path ++ ": " ++ m.reason
  issuer := "phptac.script"
  location := none
  span := none

end MissingScript

end ThreeAddress
