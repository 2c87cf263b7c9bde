/-!
# Switches

The arguments of a command that start with a dash. A switch has a long name and perhaps a
letter; letters can be put together, and a value follows in the same argument or in the next
one. Arguments are read one after another, so **the first of them that cannot go on decides**
how reading ends.
-/

namespace ThreeAddress.Command

/-- The commands. -/
inductive Name where
  | batch | lower | ast
deriving DecidableEq, Repr, Inhabited

/-- What can end the reading of arguments early. -/
inductive Stop where
  /-- The arguments make no sense. -/
  | usage (message : String)
  | version
  /-- Help was asked for, on a command or in general. -/
  | help (command : Option Name)
deriving DecidableEq, Repr, Inhabited

/-- What a switch does. -/
inductive Switch.Kind where
  /-- Can be given any number of times. -/
  | counted
  | once
  /-- Takes a value, which has to be accepted. -/
  | valued (name : String) (accepts : String → Bool)
  | stop (reason : Stop)

/-- An argument that starts with a dash. -/
structure Switch where
  long : String
  letter : Option Char
  kind : Switch.Kind
  /-- What the help says about it. -/
  help : String

/-- The arguments of a command that were read so far. -/
structure Reading where
  /-- The switches by their long names, with their values. -/
  given : List (String × String) := []
  /-- The argument that is no switch. -/
  operand : Option String := none
  /-- The switch that the next argument is the value of. -/
  pending : Option Switch := none
  /-- Whether all arguments that follow are taken as they are. -/
  plain : Bool := false

namespace Reading

/-- How often a switch was given. -/
def count (r : Reading) (long : String) : Nat :=
  r.given.countP (·.1 == long)

/-- Whether a switch was given. -/
def has (r : Reading) (long : String) : Bool :=
  r.given.any (·.1 == long)

/-- The value of a switch. -/
def value? (r : Reading) (long : String) : Option String :=
  r.given.lookup long

/-- Adds a switch with its value. -/
def add (r : Reading) (s : Switch) (value : String) : Except Stop Reading :=
  let added := { r with given := r.given ++ [(s.long, value)], pending := none }
  match s.kind with
  | .counted => return added
  | .once =>
    if r.has s.long then throw (.usage ("'--" ++ s.long ++ "' cannot be used multiple times"))
    else return added
  | .valued _ accepts =>
    if r.has s.long then throw (.usage ("'--" ++ s.long ++ "' cannot be used multiple times"))
    else if accepts value then return added
    else throw (.usage ("invalid value '" ++ value ++ "' for '--" ++ s.long ++ "'"))
  | .stop reason => throw reason

/-- Adds an argument that is no switch, of which there can be one if `takesOperand`. -/
def addOperand (r : Reading) (takesOperand : Bool) (arg : String) : Except Stop Reading :=
  if takesOperand && r.operand.isNone then return { r with operand := some arg }
  else throw (.usage ("unexpected argument '" ++ arg ++ "' found"))

/-- Reads letters that follow one dash. -/
def addLetters (r : Reading) (switches : List Switch) : List Char → Except Stop Reading
  | [] => return r
  | c :: rest =>
    match switches.find? (·.letter == some c) with
    | none => throw (.usage ("unexpected argument '-" ++ String.singleton c ++ "' found"))
    | some s =>
      match s.kind, rest with
      | .valued .., [] => return { r with pending := some s }
      | .valued .., '=' :: value => r.add s (String.ofList value)
      | .valued .., value => r.add s (String.ofList value)
      | _, _ => do (← r.add s "").addLetters switches rest

/-- Reads a long name that follows two dashes, with the value after an equals sign. -/
def addLong (r : Reading) (switches : List Switch) (arg : List Char) : Except Stop Reading :=
  let name := String.ofList (arg.takeWhile (· ≠ '='))
  match switches.find? (·.long == name) with
  | none => throw (.usage ("unexpected argument '--" ++ name ++ "' found"))
  | some s =>
    match s.kind, arg.dropWhile (· ≠ '=') with
    | .valued .., [] => return { r with pending := some s }
    | .valued .., _ :: value => r.add s (String.ofList value)
    | _, [] => r.add s ""
    | _, _ :: value =>
      throw (.usage ("unexpected value '" ++ String.ofList value ++ "' for '--" ++ name
        ++ "' found"))

/-- The message for a switch that lacks its value. -/
def lacking (s : Switch) : Stop :=
  .usage ("a value is required for '--" ++ s.long ++ "' but none was supplied")

/-- Reads one more argument. -/
def next (r : Reading) (switches : List Switch) (takesOperand : Bool) (arg : String) :
    Except Stop Reading :=
  if r.plain then r.addOperand takesOperand arg
  else
    match arg.toList, r.pending with
    | '-' :: _ :: _, some s => throw (lacking s)
    | ['-', '-'], none => return { r with plain := true }
    | '-' :: '-' :: rest, none => r.addLong switches rest
    | '-' :: c :: rest, none => r.addLetters switches (c :: rest)
    | _, some s => r.add s arg
    | _, none => r.addOperand takesOperand arg

/-- The arguments that were read, if no value is lacking. -/
def complete (r : Reading) : Except Stop Reading :=
  match r.pending with
  | some s => throw (lacking s)
  | none => return r

end Reading

end ThreeAddress.Command
