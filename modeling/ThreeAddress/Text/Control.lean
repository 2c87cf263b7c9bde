/-!
# Control sequences

The sequences that set colours and move the cursor of a terminal. They start with an escape
character, and **the longest text that can be one is one**: some signs, numbers of at most
four digits divided by semicolons, and a last character, which may be a digit too.
-/

namespace ThreeAddress.Text

/-- How far a control sequence has been read. -/
inductive ControlState where
  /-- After the escape character. -/
  | escape
  /-- After the escape character and a bracket that chooses a character set. -/
  | charset
  | charsetChosen
  /-- After some signs. -/
  | signs
  /-- After so many digits of a number. -/
  | digits (n : Nat)
  /-- After a semicolon that divides numbers. -/
  | divided
  | finished
deriving DecidableEq, Repr, Inhabited

namespace ControlState

/-- Whether what has been read is a control sequence. -/
def isFinal : ControlState → Bool
  | .charsetChosen | .digits _ | .finished => true
  | _ => false

/-- Whether a character can end a control sequence, besides digits. -/
def isLast (c : Char) : Bool :=
  ('A' ≤ c && c ≤ 'P') || ('R' ≤ c && c ≤ 'T') || c == 'Z' || c == 'c' || ('f' ≤ c && c ≤ 'n')
    || "qry=<>~".toList.contains c

/-- The state after one more character, if a sequence can go on with it. -/
def next? (s : ControlState) (c : Char) : Option ControlState :=
  if c == '(' || c == ')' then
    match s with
    | .escape => some .charset
    | .charset | .signs => some .signs
    | _ => none
  else if c == ';' then
    match s with
    | .escape | .charset | .signs => some .signs
    | .digits n => if n ≤ 4 then some .divided else none
    | .divided => some .divided
    | _ => none
  else if c == '[' || c == '#' || c == '?' then
    match s with
    | .escape | .charset | .signs => some .signs
    | _ => none
  else if c.isDigit then
    match s with
    | .escape | .signs | .divided => some (.digits 1)
    | .charset => if c ≤ '2' then some .charsetChosen else some (.digits 1)
    | .digits n => if n ≤ 4 then some (.digits (n + 1)) else none
    | _ => none
  else if isLast c then
    match s with
    | .digits n => if n ≤ 4 then some .finished else none
    | .escape | .charset | .signs | .divided => some .finished
    | _ => none
  else none

end ControlState

/-- The rest of a text after the longest control sequence that goes on from the state, if
there is one. -/
def afterControl? (s : ControlState) : List Char → Option (List Char)
  | [] => none
  | c :: rest =>
    match s.next? c with
    | none => none
    | some s' => (afterControl? s' rest).orElse fun _ => if s'.isFinal then some rest else none

/-- Whether a character starts control sequences. -/
def isEscape (c : Char) : Bool :=
  c == '\x1b' || c == '\u009b'

/-- Takes the control sequences out of a text of at most the given length. -/
def withoutControlsAux : Nat → List Char → List Char
  | n + 1, c :: rest =>
    if isEscape c then
      match afterControl? .escape rest with
      | some rest => withoutControlsAux n rest
      | none => c :: withoutControlsAux n rest
    else c :: withoutControlsAux n rest
  | _, _ => []

/-- A text without its control sequences. -/
def withoutControls (s : String) : String :=
  String.ofList (withoutControlsAux s.length s.toList)

end ThreeAddress.Text
