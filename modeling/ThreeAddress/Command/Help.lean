import ThreeAddress.Command.Line

/-!
# Help

What is printed for the version and for help, put together from the switches of the commands.
-/

namespace ThreeAddress.Command

/-- The name of the program. -/
def programName : String := "phptac"

/-- What is printed for the version. -/
def versionText : String :=
  programName ++ " 0.1.0\n"

/-- Two columns, the first as wide as its widest entry. -/
def twoColumns (rows : List (String × String)) : List String :=
  let width := (rows.map (·.1.length)).foldl max 0
  rows.map fun (left, right) => "  " ++ left.pushn ' ' (width - left.length) ++ "  " ++ right

/-- The switch as a row of the help. -/
def Switch.row (s : Switch) : String × String :=
  let letter := match s.letter with
    | some c => "-" ++ String.singleton c ++ ", "
    | none => "    "
  let more := match s.kind with
    | .counted => "..."
    | .valued name _ => " <" ++ name ++ ">"
    | _ => ""
  (letter ++ "--" ++ s.long ++ more, s.help)

/-- The help on a command, or in general. -/
def helpText (command : Option Name) : String :=
  let lines := match command with
    | none =>
      ["Lowers PHP source into three-address code", "",
        "Usage: " ++ programName ++ " [OPTIONS] [COMMAND]", "", "Commands:"]
      ++ twoColumns (Name.all.map (fun n => (n.text, n.help))
          ++ [("help", "Print this message or the help of the given subcommand(s)")])
      ++ ["", "Options:"] ++ twoColumns (generalSwitches.map Switch.row)
    | some n =>
      let (operand, about) := n.operand
      [n.help, "",
        "Usage: " ++ programName ++ " " ++ n.text ++ " [OPTIONS] <" ++ operand ++ ">", "",
        "Arguments:"]
      ++ twoColumns [("<" ++ operand ++ ">", about)]
      ++ ["", "Options:"] ++ twoColumns (n.switches.map Switch.row)
  "\n".intercalate lines ++ "\n"

end ThreeAddress.Command
