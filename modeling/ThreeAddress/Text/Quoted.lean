import ThreeAddress.Text.Unprintable

/-!
# Quoted text

Text between double quotes, as the dump of a syntax tree and the messages about files show
it: quotes, backslashes and the usual control characters have short escapes, and what cannot
be printed is written by its code point in hexadecimal.

The path of a file has its apostrophes escaped too.
-/

namespace ThreeAddress.Text

/-- A code point in hexadecimal between braces. -/
def codePoint (c : Char) : List Char :=
  ['\\', 'u', '\x7b'] ++ Nat.toDigits 16 c.toNat ++ ['\x7d']

/-- A character inside quotes. `also` tells which further characters get a backslash. -/
def quotedChar (also : Char → Bool) (c : Char) : List Char :=
  match c with
  | '\x00' => ['\\', '0']
  | '\t' => ['\\', 't']
  | '\r' => ['\\', 'r']
  | '\n' => ['\\', 'n']
  | '\\' => ['\\', '\\']
  | '"' => ['\\', '"']
  | c =>
    if also c then ['\\', c]
    else if unprintable.contains c then codePoint c
    else [c]

/-- Characters between double quotes. -/
def quotedWith (also : Char → Bool) (s : String) : String :=
  String.ofList ('"' :: s.toList.flatMap (quotedChar also) ++ ['"'])

/-- Text between double quotes. -/
def quoted (s : String) : String :=
  quotedWith (fun _ => false) s

/-- A path between double quotes. -/
def quotedPath (s : String) : String :=
  quotedWith (· == '\'') s

end ThreeAddress.Text
