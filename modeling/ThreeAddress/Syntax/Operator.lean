/-!
# Operators

The operators of expressions: their names, the tokens that they are written with and how
tightly the binary ones bind. Assignments such as `+=` share the binary operators.
-/

namespace ThreeAddress.Syntax

/-- An operator with two operands. -/
inductive BinaryOperator where
  | add | sub | mul | div | mod | pow | concat | shiftLeft | shiftRight
  | bitAnd | bitOr | bitXor | booleanAnd | booleanOr | logicalAnd | logicalOr | logicalXor
  | eq | ne | identical | notIdentical | lt | le | gt | ge | spaceship | coalesce
deriving DecidableEq, Repr, Inhabited

namespace BinaryOperator

/-- Every binary operator. -/
def all : List BinaryOperator :=
  [.add, .sub, .mul, .div, .mod, .pow, .concat, .shiftLeft, .shiftRight, .bitAnd, .bitOr,
   .bitXor, .booleanAnd, .booleanOr, .logicalAnd, .logicalOr, .logicalXor, .eq, .ne, .identical,
   .notIdentical, .lt, .le, .gt, .ge, .spaceship, .coalesce]

/-- The operator's name. -/
def name : BinaryOperator → String
  | .add => "Add"
  | .sub => "Sub"
  | .mul => "Mul"
  | .div => "Div"
  | .mod => "Mod"
  | .pow => "Pow"
  | .concat => "Concat"
  | .shiftLeft => "ShiftLeft"
  | .shiftRight => "ShiftRight"
  | .bitAnd => "BitAnd"
  | .bitOr => "BitOr"
  | .bitXor => "BitXor"
  | .booleanAnd => "BooleanAnd"
  | .booleanOr => "BooleanOr"
  | .logicalAnd => "LogicalAnd"
  | .logicalOr => "LogicalOr"
  | .logicalXor => "LogicalXor"
  | .eq => "Eq"
  | .ne => "Ne"
  | .identical => "Identical"
  | .notIdentical => "NotIdentical"
  | .lt => "Lt"
  | .le => "Le"
  | .gt => "Gt"
  | .ge => "Ge"
  | .spaceship => "Spaceship"
  | .coalesce => "Coalesce"

/-- The token between the operands. -/
def token : BinaryOperator → String
  | .add => "+"
  | .sub => "-"
  | .mul => "*"
  | .div => "/"
  | .mod => "%"
  | .pow => "**"
  | .concat => "."
  | .shiftLeft => "<<"
  | .shiftRight => ">>"
  | .bitAnd => "&"
  | .bitOr => "|"
  | .bitXor => "^"
  | .booleanAnd => "&&"
  | .booleanOr => "||"
  | .logicalAnd => "and"
  | .logicalOr => "or"
  | .logicalXor => "xor"
  | .eq => "=="
  | .ne => "!="
  | .identical => "==="
  | .notIdentical => "!=="
  | .lt => "<"
  | .le => "<="
  | .gt => ">"
  | .ge => ">="
  | .spaceship => "<=>"
  | .coalesce => "??"

/-- The token of the assignment that applies the operator, if there is one. -/
def assignToken? : BinaryOperator → Option String
  | .add => some "+="
  | .sub => some "-="
  | .mul => some "*="
  | .div => some "/="
  | .mod => some "%="
  | .pow => some "**="
  | .concat => some ".="
  | .shiftLeft => some "<<="
  | .shiftRight => some ">>="
  | .bitAnd => some "&="
  | .bitOr => some "|="
  | .bitXor => some "^="
  | .coalesce => some "??="
  | _ => none

/-- How tightly the operator binds; a higher number binds tighter. -/
def precedence : BinaryOperator → Nat
  | .logicalOr => 1
  | .logicalXor => 2
  | .logicalAnd => 3
  | .coalesce => 6
  | .booleanOr => 7
  | .booleanAnd => 8
  | .bitOr => 9
  | .bitXor => 10
  | .bitAnd => 11
  | .eq | .ne | .identical | .notIdentical | .spaceship => 12
  | .lt | .le | .gt | .ge => 13
  | .concat => 14
  | .shiftLeft | .shiftRight => 15
  | .add | .sub => 16
  | .mul | .div | .mod => 17
  | .pow => 19

/-- Whether a chain of the operator groups from the right. -/
def groupsRight : BinaryOperator → Bool
  | .pow | .coalesce => true
  | _ => false

/-- The operator of a token in letters of any case. Inequality has two tokens. -/
def ofToken? (token : String) : Option BinaryOperator :=
  let lower := token.map Char.toLower
  if lower = "<>" then some .ne else all.find? (·.token == lower)

end BinaryOperator

/-- An operator with one operand. -/
inductive UnaryOperator where
  | plus | minus | not | bitNot | silence | preInc | preDec | postInc | postDec
deriving DecidableEq, Repr, Inhabited

namespace UnaryOperator

/-- Every unary operator. -/
def all : List UnaryOperator :=
  [.plus, .minus, .not, .bitNot, .silence, .preInc, .preDec, .postInc, .postDec]

/-- The operator's name. -/
def name : UnaryOperator → String
  | .plus => "Plus"
  | .minus => "Minus"
  | .not => "Not"
  | .bitNot => "BitNot"
  | .silence => "Silence"
  | .preInc => "PreInc"
  | .preDec => "PreDec"
  | .postInc => "PostInc"
  | .postDec => "PostDec"

/-- The token before or after the operand. -/
def token : UnaryOperator → String
  | .plus => "+"
  | .minus => "-"
  | .not => "!"
  | .bitNot => "~"
  | .silence => "@"
  | .preInc | .postInc => "++"
  | .preDec | .postDec => "--"

/-- Whether the token follows the operand. -/
def followsOperand : UnaryOperator → Bool
  | .postInc | .postDec => true
  | _ => false

end UnaryOperator

/-- The type that a cast converts to. -/
inductive CastType where
  | int | float | string | bool | array | object | unset
deriving DecidableEq, Repr, Inhabited

namespace CastType

/-- Every cast type. -/
def all : List CastType :=
  [.int, .float, .string, .bool, .array, .object, .unset]

/-- The type's name. -/
def name : CastType → String
  | .int => "Int"
  | .float => "Float"
  | .string => "String"
  | .bool => "Bool"
  | .array => "Array"
  | .object => "Object"
  | .unset => "Unset"

/-- The cast that is written for the type. -/
def token : CastType → String
  | .int => "(int)"
  | .float => "(float)"
  | .string => "(string)"
  | .bool => "(bool)"
  | .array => "(array)"
  | .object => "(object)"
  | .unset => "(unset)"

/-- The type that a word between the parentheses of a cast names, in letters of any case. -/
def ofWord? (word : String) : Option CastType :=
  match word.map Char.toLower with
  | "int" | "integer" => some .int
  | "bool" | "boolean" => some .bool
  | "float" | "double" | "real" => some .float
  | "string" | "binary" => some .string
  | "array" => some .array
  | "object" => some .object
  | "unset" => some .unset
  | _ => none

end CastType

/-- The ways to include another file. -/
inductive Inclusion where
  | always | once | requireAlways | requireOnce
deriving DecidableEq, Repr, Inhabited

namespace Inclusion

/-- Every way to include a file. -/
def all : List Inclusion :=
  [.always, .once, .requireAlways, .requireOnce]

/-- The name of the way. -/
def name : Inclusion → String
  | .always => "Include"
  | .once => "IncludeOnce"
  | .requireAlways => "Require"
  | .requireOnce => "RequireOnce"

/-- The keyword of the way. -/
def keyword : Inclusion → String
  | .always => "include"
  | .once => "include_once"
  | .requireAlways => "require"
  | .requireOnce => "require_once"

/-- The way that a keyword names, in letters of any case. -/
def ofWord (word : String) : Inclusion :=
  (all.find? (·.keyword == word.map Char.toLower)).getD .always

end Inclusion

end ThreeAddress.Syntax
