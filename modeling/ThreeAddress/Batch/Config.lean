import ThreeAddress.Batch.Options
import ThreeAddress.Files.Fault
import ThreeAddress.Json.Read

/-!
# Configurations

The options for lowering and for batches, read from a JSON document. A group of options is an
object or an array: **members that are not known are passed over, options that are not given
keep their defaults**, and an array gives the options in their order, as many as it holds.
-/

namespace ThreeAddress

/-- The options for lowering and for batches. -/
structure Config where
  lower : Lowering.Options := {}
  /-- The options for batches. The lowering options among them are not used. -/
  batch : Batch.Options := {}
deriving DecidableEq, Repr, Inhabited

/-- What is wrong with a configuration. -/
inductive Config.Fault where
  /-- The text is not one JSON document. -/
  | malformed
  /-- A name spells no text. -/
  | unreadableName
  /-- The option is given twice. -/
  | repeated (option : String)
  /-- There are more elements than options. -/
  | tooMany (options : Nat)
  /-- Something else stands where this is needed. -/
  | expected (what : String)
deriving DecidableEq, Repr, Inhabited

/-- Why there is no configuration. -/
inductive Config.Error where
  | unreadable (f : FileFault)
  | faulty (f : Config.Fault)
deriving DecidableEq, Repr, Inhabited

namespace Config

/-- What a message says about the fault. -/
def Fault.text : Fault → String
  | .malformed => "malformed document"
  | .unreadableName => "unreadable name"
  | .repeated option => "duplicate field " ++ option
  | .tooMany options => "expected no more than " ++ toString options ++ " elements"
  | .expected what => "expected " ++ what

/-- The message for the error. -/
def Error.text : Error → String
  | .unreadable f => "read config: " ++ f.text
  | .faulty f => "parse config: " ++ f.text

/-! ## Options in documents -/

/-- Looks up an option that must not be given twice. -/
def option (members : List (String × Json)) (name : String) : Except Fault (Option Json) :=
  match members.filter (·.1 == name) with
  | [] => return none
  | [(_, j)] => return some j
  | _ => throw (.repeated name)

/-- The options with the given names, in that order. -/
def options (names : List String) : Json → Except Fault (List (Option Json))
  | .array items =>
    if items.length ≤ names.length then
      return items.map some ++ List.replicate (names.length - items.length) none
    else throw (.tooMany names.length)
  | .object members => do
    let members ← members.mapM fun (key, j) =>
      match Json.decode? key with
      | some name => pure (name, j)
      | none => throw .unreadableName
    names.mapM (option members)
  | _ => throw (.expected "an object")

/-- A choice between two. -/
def flag : Json → Except Fault Bool
  | .bool b => return b
  | _ => throw (.expected "a boolean")

/-- The bound of the sizes that can be asked for. -/
def sizeBound : Nat :=
  Nat.pow 2 64

/-- A size, written with digits only. -/
def size : Json → Except Fault Nat
  | .number numeral =>
    if numeral.toList.all Char.isDigit && (Nat.ofDigitChars 10 numeral.toList 0) < sizeBound then
      return Nat.ofDigitChars 10 numeral.toList 0
    else throw (.expected "a size")
  | _ => throw (.expected "a size")

/-- A text. -/
def text : Json → Except Fault String
  | .string spelling =>
    match Json.decode? spelling with
    | some s => return s
    | none => throw (.expected "a string")
  | _ => throw (.expected "a string")

/-- The value of an option, or its default. -/
def given {α : Type} (default : α) (read : Json → Except Fault α) :
    Option (Option Json) → Except Fault α
  | some (some j) => read j
  | _ => return default

/-- The options for lowering. -/
def lowerOptions (j : Json) : Except Fault Lowering.Options := do
  let found ← options ["switch_fallthrough", "max_depth"] j
  let d : Lowering.Options := {}
  return {
    switchFallthrough := ← given d.switchFallthrough flag found[0]?
    maxDepth := ← given d.maxDepth size found[1]? }

/-- The options for batches, but for those for lowering. -/
def batchGroup (j : Json) : Except Fault Batch.Options := do
  let found ← options ["output_suffix", "wrap_php_tags", "jobs"] j
  let d : Batch.Options := {}
  return {
    outputSuffix := ← given d.outputSuffix text found[0]?
    wrapTags := ← given d.wrapTags flag found[1]?
    jobs := ← given d.jobs size found[2]? }

/-- The configuration that a document holds. -/
def ofJson (j : Json) : Except Fault Config := do
  let found ← options ["lower", "batch"] j
  return {
    lower := ← given {} lowerOptions found[0]?
    batch := ← given {} batchGroup found[1]? }

/-- The configuration that a text holds. -/
def ofText (s : String) : Except Fault Config :=
  match Json.read? s with
  | some j => ofJson j
  | none => throw .malformed

/-- The options for batches together with those for lowering. -/
def batchOptions (c : Config) : Batch.Options :=
  { c.batch with lower := c.lower }

end Config

end ThreeAddress
