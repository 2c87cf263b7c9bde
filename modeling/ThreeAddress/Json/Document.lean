/-!
# JSON documents

A document keeps its strings and numbers as they are spelled. `encode` spells a text and
`decode?` reads a spelling; a spelling can escape half of a character, and then it stands for
no text.

`Json.pretty` lays a document out with one element a line.
-/

namespace ThreeAddress

/-- A JSON document. -/
inductive Json where
  | null
  | bool (b : Bool)
  | number (numeral : String)
  /-- A string by its spelling between the quotes. -/
  | string (spelling : List Char)
  | array (items : List Json)
  | object (members : List (List Char × Json))
deriving Repr, Inhabited

namespace Json

/-! ## Strings -/

/-- The hexadecimal digits of a number below `16 ^ n`, with zeros in front. -/
def hexDigits : Nat → Nat → List Char
  | 0, _ => []
  | n + 1, k => hexDigits n (k / 16) ++ [Nat.digitChar (k % 16)]

/-- The escapes of one letter, with the characters that they stand for. -/
def shortEscapes : List (Char × Char) :=
  [('"', '"'), ('\\', '\\'), ('/', '/'), ('b', '\x08'), ('f', '\x0c'), ('n', '\n'), ('r', '\r'),
   ('t', '\t')]

/-- The spelling of a character inside a string. -/
def encodeChar (c : Char) : List Char :=
  if c = '/' then [c]
  else
    match shortEscapes.find? (·.2 == c) with
    | some (letter, _) => ['\\', letter]
    | none => if c.toNat < 0x20 then '\\' :: 'u' :: hexDigits 4 c.toNat else [c]

/-- The spelling of a text. -/
def encode (s : String) : List Char :=
  s.toList.flatMap encodeChar

/-- The value of a hexadecimal digit. -/
def hexValue? (c : Char) : Option Nat :=
  if '0' ≤ c ∧ c ≤ '9' then some (c.toNat - '0'.toNat)
  else if 'a' ≤ c ∧ c ≤ 'f' then some (c.toNat - 'a'.toNat + 10)
  else if 'A' ≤ c ∧ c ≤ 'F' then some (c.toNat - 'A'.toNat + 10)
  else none

/-- The value of four hexadecimal digits. -/
def unit? (a b c d : Char) : Option Nat := do
  return (((← hexValue? a) * 16 + (← hexValue? b)) * 16 + (← hexValue? c)) * 16 + (← hexValue? d)

/-- Whether a code unit is the first half of a character. -/
def isLeading (u : Nat) : Bool :=
  0xD800 ≤ u && u < 0xDC00

/-- Whether a code unit is the second half of a character. -/
def isTrailing (u : Nat) : Bool :=
  0xDC00 ≤ u && u < 0xE000

/-- Reads escaped and plain characters. `half?` is the first half of a character that was
escaped just before. -/
def decodeFrom (half? : Option Nat) : List Char → Option (List Char)
  | [] => if half?.isNone then some [] else none
  | '\\' :: 'u' :: a :: b :: c :: d :: rest => do
    let u ← unit? a b c d
    match half? with
    | some h =>
      if isTrailing u then
        let c := Char.ofNat (0x10000 + (h - 0xD800) * 0x400 + (u - 0xDC00))
        return c :: (← decodeFrom none rest)
      else none
    | none =>
      if isLeading u then decodeFrom (some u) rest
      else if isTrailing u then none
      else return Char.ofNat u :: (← decodeFrom none rest)
  | '\\' :: letter :: rest => do
    let (_, c) ← shortEscapes.find? (·.1 == letter)
    if half?.isNone then return c :: (← decodeFrom none rest) else none
  | c :: rest => do
    if half?.isNone then return c :: (← decodeFrom none rest) else none

/-- The text that a spelling stands for. -/
def decode? (spelling : List Char) : Option String :=
  (decodeFrom none spelling).map String.ofList

/-! ## Making documents -/

/-- A text as a document. -/
def ofText (s : String) : Json :=
  .string (encode s)

/-- A number as a document. -/
def ofNat (n : Nat) : Json :=
  .number (toString n)

/-- A text or nothing as a document. -/
def ofText? (s : Option String) : Json :=
  s.elim .null ofText

/-- An object with the given members. -/
def record (members : List (String × Json)) : Json :=
  .object (members.map fun (k, v) => (encode k, v))

/-! ## Layout -/

/-- The quoted spelling. -/
def quotedSpelling (spelling : List Char) : String :=
  String.ofList ('"' :: spelling ++ ['"'])

/-- Elements one a line between brackets, indented by one more level than the brackets. -/
def block (opening closing indent : String) : List String → String
  | [] => opening ++ closing
  | items =>
    opening ++ "\n" ++ ",\n".intercalate (items.map (indent ++ "  " ++ ·)) ++ "\n" ++ indent
      ++ closing

mutual

/-- The document as a text of several lines, the first of which follows something. -/
def prettyAt (indent : String) : Json → String
  | .null => "null"
  | .bool b => if b then "true" else "false"
  | .number numeral => numeral
  | .string spelling => quotedSpelling spelling
  | .array items => block "[" "]" indent (prettyItems (indent ++ "  ") items)
  | .object members => block "\x7b" "\x7d" indent (prettyMembers (indent ++ "  ") members)

/-- The elements of an array. -/
def prettyItems (indent : String) : List Json → List String
  | [] => []
  | item :: rest => prettyAt indent item :: prettyItems indent rest

/-- The members of an object. -/
def prettyMembers (indent : String) : List (List Char × Json) → List String
  | [] => []
  | (key, value) :: rest =>
    (quotedSpelling key ++ ": " ++ prettyAt indent value) :: prettyMembers indent rest

end

/-- The document as a text of several lines. -/
def pretty (j : Json) : String :=
  j.prettyAt ""

end Json

end ThreeAddress
