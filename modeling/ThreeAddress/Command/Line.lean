import ThreeAddress.Command.Switch

/-!
# Command lines

The commands with their switches, and the reading of a whole command line. Switches that all
commands share stand before or after the name of the command; **where they are counted, those
after the name replace those before it**.
-/

namespace ThreeAddress.Command

/-- Converts a directory. -/
structure BatchLine where
  dir : String
  config : Option String
  jobs : Option Nat
  fallthrough : Bool
  noWrap : Bool
  json : Bool
deriving DecidableEq, Repr, Inhabited

/-- Lowers a file. -/
structure LowerLine where
  file : String
  fallthrough : Bool
  json : Bool
  output : Option String
deriving DecidableEq, Repr, Inhabited

/-- What a command line asks for. -/
inductive Line where
  | batch (b : BatchLine)
  | lower (l : LowerLine)
  | ast (file : String)
  | nothing
deriving DecidableEq, Repr, Inhabited

/-- A command line with the verbosity that was asked for. -/
structure Invocation where
  verbosity : Nat
  line : Line
deriving DecidableEq, Repr, Inhabited

/-! ## Switches -/

/-- A number of workers, perhaps with a plus sign. -/
def jobs? (s : String) : Option Nat :=
  let digits := match s.toList with
    | '+' :: rest => rest
    | cs => cs
  let n := Nat.ofDigitChars 10 digits 0
  if digits.isEmpty || !digits.all Char.isDigit || Nat.pow 2 64 ≤ n then none else some n

/-- Shows more of the log. -/
def verbose : Switch :=
  ⟨"verbose", some 'v', .counted, "Increase log output (-v info, -vv debug, -vvv trace)"⟩

/-- Lets switch cases run into the next one. -/
def fallthrough : Switch :=
  ⟨"fallthrough", none, .once,
    "Keep fallthrough between switch cases instead of adding an implicit break"⟩

/-- Asks for help. -/
def helpOn (command : Option Name) : Switch :=
  ⟨"help", some 'h', .stop (.help command), "Print help"⟩

/-- The switches that stand before the name of a command. -/
def generalSwitches : List Switch :=
  [verbose, helpOn none, ⟨"version", some 'V', .stop .version, "Print version"⟩]

/-- The switches of a command alone. -/
def Name.ownSwitches : Name → List Switch
  | .batch =>
    [⟨"config", some 'c', .valued "FILE" fun _ => true, "JSON config file"⟩,
     ⟨"jobs", some 'j', .valued "N" fun s => (jobs? s).isSome, "Number of worker threads"⟩,
     fallthrough,
     ⟨"no-wrap", none, .once, "Do not wrap listings in <?php ?> tags"⟩,
     ⟨"json", none, .once, "Print the batch report as JSON"⟩]
  | .lower =>
    [fallthrough,
     ⟨"json", none, .once, "Print the listing as a JSON object"⟩,
     ⟨"output", some 'o', .valued "FILE" fun _ => true,
       "Write the listing to a file instead of stdout"⟩]
  | .ast => []

/-- The switches of a command. -/
def Name.switches (n : Name) : List Switch :=
  n.ownSwitches ++ [verbose, helpOn (some n)]

namespace Name

/-- All commands. -/
def all : List Name :=
  [.batch, .lower, .ast]

/-- The command's name. -/
def text : Name → String
  | .batch => "batch"
  | .lower => "lower"
  | .ast => "ast"

/-- What the help says about the command. -/
def help : Name → String
  | .batch => "Convert every .php file under a directory into <dir>_TAC"
  | .lower => "Lower one PHP file and print its listing"
  | .ast => "Print the parsed AST of a PHP file"

/-- The name of the command's operand, and what the help says about it. -/
def operand : Name → String × String
  | .batch => ("dir", "The directory to convert")
  | .lower => ("file", "The PHP file to lower")
  | .ast => ("file", "The PHP file to parse")

/-- The command with the given name. -/
def ofText? (s : String) : Option Name :=
  all.find? (·.text == s)

/-- What the command is asked to do. -/
def line (n : Name) (operand : String) (r : Reading) : Line :=
  match n with
  | .batch => .batch ⟨operand, r.value? "config", (r.value? "jobs").bind jobs?,
      r.has "fallthrough", r.has "no-wrap", r.has "json"⟩
  | .lower => .lower ⟨operand, r.has "fallthrough", r.has "json", r.value? "output"⟩
  | .ast => .ast operand

end Name

/-! ## Reading -/

/-- Reads the arguments of a command. `before` is the verbosity asked for before its name. -/
def readCommand (n : Name) (before : Nat) (args : List String) : Except Stop Invocation := do
  let read ← args.foldlM (fun (r : Reading) arg => r.next n.switches true arg) {}
  let r ← read.complete
  let after := r.count verbose.long
  match r.operand with
  | some operand => return ⟨if after = 0 then before else after, n.line operand r⟩
  | none => throw (.usage ("required arguments were not provided: <" ++ n.operand.1 ++ ">"))

/-- What the words after `help` ask for. -/
def readHelp : List String → Stop
  | [] => .help none
  | [s] =>
    match Name.ofText? s with
    | some n => .help (some n)
    | none =>
      if s == "help" then .help none else .usage ("unrecognized subcommand '" ++ s ++ "'")
  | s :: _ => .usage ("unrecognized subcommand '" ++ s ++ "'")

/-- Reads arguments up to the name of a command, and then those of the command. -/
def readFrom (r : Reading) : List String → Except Stop Invocation
  | [] => return ⟨r.count verbose.long, .nothing⟩
  | arg :: rest =>
    match if r.plain then none else Name.ofText? arg with
    | some n => readCommand n (r.count verbose.long) rest
    | none =>
      if !r.plain && arg == "help" then throw (readHelp rest)
      else do readFrom (← r.next generalSwitches false arg) rest

/-- Reads a command line. -/
def read (args : List String) : Except Stop Invocation :=
  readFrom {} args

end ThreeAddress.Command
