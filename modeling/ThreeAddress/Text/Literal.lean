/-!
# String literals

The text between the quotes of a PHP string and the characters that it stands for. Reading
goes one character at a time: a state says what is still open, a backslash or the digits of
a character code, and every step gives the characters that are settled by it.

Writing picks **single quotes** for plain text, where only the quote and the backslash need
one, and **double quotes** as soon as there is a control character, so that a literal never
holds a line break.
-/

namespace ThreeAddress.Text

/-- The control characters: the first 32, and from delete up to the last of Latin-1's. -/
def isControl (c : Char) : Bool :=
  c.toNat < 0x20 || (0x7F ≤ c.toNat && c.toNat ≤ 0x9F)

/-- The value of a hexadecimal digit. -/
def hexValue? (c : Char) : Option Nat :=
  if '0' ≤ c ∧ c ≤ '9' then some (c.toNat - '0'.toNat)
  else if 'a' ≤ c ∧ c ≤ 'f' then some (c.toNat - 'a'.toNat + 10)
  else if 'A' ≤ c ∧ c ≤ 'F' then some (c.toNat - 'A'.toNat + 10)
  else none

/-- The value of an octal digit. -/
def octalValue? (c : Char) : Option Nat :=
  if '0' ≤ c ∧ c ≤ '7' then some (c.toNat - '0'.toNat) else none

/-! ## Double quotes -/

/-- What is still open after some characters of a double-quoted text. -/
inductive Escape where
  /-- Nothing is open. -/
  | none
  /-- A backslash was read. -/
  | backslash
  /-- A backslash and an `x`, with no digit yet. -/
  | hexMark
  /-- One hexadecimal digit of a character code. -/
  | hexDigit (value : Nat)
  /-- Octal digits of a character code; `more` of them may follow. -/
  | octal (value more : Nat)
deriving DecidableEq, Repr

namespace Escape

/-- The character that a letter stands for after a backslash. -/
def short? : Char → Option Char
  | 'n' => some '\n'
  | 't' => some '\t'
  | 'r' => some '\r'
  | 'v' => some '\x0b'
  | 'e' => some '\x1b'
  | 'f' => some '\x0c'
  | '\\' => some '\\'
  | '$' => some '$'
  | '"' => some '"'
  | _ => Option.none

/-- Reads a character with nothing open, after the characters `out`. -/
def plain (out : List Char) (c : Char) : List Char × Escape :=
  if c = '\\' then (out, .backslash) else (out ++ [c], .none)

/-- Reads a character: the characters that are settled by it, and what is open then. -/
def step : Escape → Char → List Char × Escape
  | .none, c => plain [] c
  | .backslash, c =>
    match short? c, octalValue? c with
    | some d, _ => ([d], .none)
    | _, some v => ([], .octal v 2)
    | _, _ => if c = 'x' then ([], .hexMark) else (['\\', c], .none)
  | .hexMark, c =>
    match hexValue? c with
    | some v => ([], .hexDigit v)
    | _ => plain ['\\', 'x'] c
  | .hexDigit v, c =>
    match hexValue? c with
    | some w => ([Char.ofNat (v * 16 + w)], .none)
    | _ => plain [Char.ofNat v] c
  | .octal v 0, c => plain [Char.ofNat v] c
  | .octal v (more + 1), c =>
    match octalValue? c with
    | some w => ([], .octal (v * 8 + w) more)
    | _ => plain [Char.ofNat v] c

/-- The characters that are settled when the text ends. -/
def close : Escape → List Char
  | .none => []
  | .backslash => ['\\']
  | .hexMark => ['\\', 'x']
  | .hexDigit v => [Char.ofNat v]
  | .octal v _ => [Char.ofNat v]

/-- Reads a text to its end. -/
def read : Escape → List Char → List Char
  | e, [] => e.close
  | e, c :: cs => (e.step c).1 ++ read (e.step c).2 cs

end Escape

/-- The characters that a double-quoted text stands for. -/
def unescapeDouble (raw : String) : String :=
  String.ofList (Escape.read .none raw.toList)

/-! ## Single quotes -/

/-- Reads a single-quoted text; the flag tells whether a backslash came before. -/
def readSingle : Bool → List Char → List Char
  | false, [] => []
  | true, [] => ['\\']
  | false, c :: cs => if c = '\\' then readSingle true cs else c :: readSingle false cs
  | true, c :: cs =>
    if c = '\\' ∨ c = '\'' then c :: readSingle false cs
    else '\\' :: c :: readSingle false cs

/-- The characters that a single-quoted text stands for. -/
def unescapeSingle (raw : String) : String :=
  String.ofList (readSingle false raw.toList)

/-! ## Writing -/

/-- Two hexadecimal digits, in capitals. -/
def twoHexDigits (n : Nat) : List Char :=
  let ds := (Nat.toDigits 16 n).map Char.toUpper
  List.replicate (2 - ds.length) '0' ++ ds

/-- A character inside double quotes. -/
def escapeDouble (c : Char) : List Char :=
  match c with
  | '\n' => ['\\', 'n']
  | '\t' => ['\\', 't']
  | '\r' => ['\\', 'r']
  | '\x0b' => ['\\', 'v']
  | '\x0c' => ['\\', 'f']
  | '\x1b' => ['\\', 'e']
  | '\\' => ['\\', '\\']
  | '"' => ['\\', '"']
  | '$' => ['\\', '$']
  | c => if isControl c then ['\\', 'x'] ++ twoHexDigits c.toNat else [c]

/-- A character inside single quotes. -/
def escapeSingle (c : Char) : List Char :=
  if c = '\\' ∨ c = '\'' then ['\\', c] else [c]

/-- A literal for a text. -/
def literal (value : String) : String :=
  let cs := value.toList
  if cs.any isControl then String.ofList ('"' :: cs.flatMap escapeDouble ++ ['"'])
  else String.ofList ('\'' :: cs.flatMap escapeSingle ++ ['\''])

/-- A character of an interpolated string, whose escapes are kept as they were written. -/
def escapeFragmentChar : Char → List Char
  | '\r' => ['\\', 'r']
  | '\n' => ['\\', 'n']
  | '\t' => ['\\', 't']
  | c => [c]

/-- The raw text of an interpolated string on one line. -/
def escapeFragment (raw : String) : String :=
  String.ofList (raw.toList.flatMap escapeFragmentChar)

end ThreeAddress.Text
