import ThreeAddress.Json.Document

/-!
# Reading JSON

A reader takes the characters that are left and gives what it read with those that are left
then. Nested values are read to a given depth, for which the length of the text is always
enough.
-/

namespace ThreeAddress.Json

/-- Reads something from the front of a text. -/
abbrev Reader (α : Type) := List Char → Option (α × List Char)

/-- Without the blanks in front. -/
def skipBlanks (cs : List Char) : List Char :=
  cs.dropWhile fun c => c == ' ' || c == '\n' || c == '\t' || c == '\r'

/-- The spelling of a string up to the quote that closes it. -/
def spelling : Reader (List Char)
  | [] => none
  | '"' :: rest => some ([], rest)
  | '\\' :: 'u' :: a :: b :: c :: d :: rest => do
    let _ ← unit? a b c d
    let (s, rest) ← spelling rest
    return ('\\' :: 'u' :: a :: b :: c :: d :: s, rest)
  | '\\' :: letter :: rest => do
    let _ ← shortEscapes.find? (·.1 == letter)
    let (s, rest) ← spelling rest
    return ('\\' :: letter :: s, rest)
  | c :: rest => do
    if c.toNat < 0x20 || c == '\\' then none
    else
      let (s, rest) ← spelling rest
      return (c :: s, rest)

/-- At least one digit. -/
def digits : Reader (List Char) := fun cs =>
  match cs.takeWhile Char.isDigit with
  | [] => none
  | ds => some (ds, cs.dropWhile Char.isDigit)

/-- The digits before the point: no zero stands in front of others. -/
def whole : Reader (List Char)
  | '0' :: rest =>
    match rest with
    | c :: _ => if c.isDigit then none else some (['0'], rest)
    | [] => some (['0'], [])
  | cs => digits cs

/-- The digits after the point, if there is one. -/
def fraction : Reader (List Char)
  | '.' :: rest => do
    let (ds, rest) ← digits rest
    return ('.' :: ds, rest)
  | cs => some ([], cs)

/-- The power of ten, if there is one. -/
def exponent : Reader (List Char)
  | e :: rest =>
    if e == 'e' || e == 'E' then
      match rest with
      | s :: after =>
        if s == '+' || s == '-' then do
          let (ds, after) ← digits after
          return (e :: s :: ds, after)
        else do
          let (ds, after) ← digits rest
          return (e :: ds, after)
      | [] => none
    else some ([], e :: rest)
  | [] => some ([], [])

/-- A number. -/
def numeral : Reader String := fun cs => do
  let (sign, cs) := match cs with
    | '-' :: rest => (['-'], rest)
    | _ => ([], cs)
  let (w, cs) ← whole cs
  let (f, cs) ← fraction cs
  let (e, cs) ← exponent cs
  return (String.ofList (sign ++ w ++ f ++ e), cs)

/-- A word that stands for a value. -/
def word (w : String) (j : Json) : Reader Json := fun cs =>
  if w.toList.isPrefixOf cs then some (j, cs.drop w.length) else none

/-- Elements divided by commas, up to the closing character. -/
def listed {α : Type} (element : Reader α) (closing : Char) : Nat → Reader (List α)
  | 0, _ => none
  | n + 1, cs => do
    let (a, cs) ← element cs
    match skipBlanks cs with
    | ',' :: rest =>
      let (as, rest) ← listed element closing n rest
      return (a :: as, rest)
    | c :: rest => if c = closing then some ([a], rest) else none
    | [] => none

/-- Elements between brackets, of which the opening one was read. -/
def enclosed {α : Type} (element : Reader α) (closing : Char) : Reader (List α) := fun cs =>
  match skipBlanks cs with
  | c :: rest => if c = closing then some ([], rest) else listed element closing cs.length cs
  | [] => none

/-- A key, a colon and a value. -/
def keyed (value : Reader Json) : Reader (List Char × Json) := fun cs =>
  match skipBlanks cs with
  | '"' :: rest => do
    let (key, rest) ← spelling rest
    match skipBlanks rest with
    | ':' :: rest =>
      let (j, rest) ← value rest
      return ((key, j), rest)
    | _ => none
  | _ => none

/-- A value that nests at most so deep. -/
def value : Nat → Reader Json
  | 0, _ => none
  | n + 1, cs =>
    match skipBlanks cs with
    | '\x7b' :: rest => do
      let (members, rest) ← enclosed (keyed (value n)) '\x7d' rest
      return (.object members, rest)
    | '[' :: rest => do
      let (items, rest) ← enclosed (value n) ']' rest
      return (.array items, rest)
    | '"' :: rest => do
      let (s, rest) ← spelling rest
      return (.string s, rest)
    | 't' :: rest => word "true" (.bool true) ('t' :: rest)
    | 'f' :: rest => word "false" (.bool false) ('f' :: rest)
    | 'n' :: rest => word "null" .null ('n' :: rest)
    | rest => do
      let (s, rest) ← numeral rest
      return (.number s, rest)

/-- The document that a text holds, with nothing but blanks around it. -/
def read? (s : String) : Option Json := do
  let (j, rest) ← value (s.length + 1) s.toList
  if (skipBlanks rest).isEmpty then return j else none

end ThreeAddress.Json
