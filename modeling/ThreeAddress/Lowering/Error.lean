import ThreeAddress.Diagnostic

/-!
# Lowering errors

Why a syntax tree cannot be lowered: a node stands where nodes of its kind have no meaning,
an operator has no token, or the tree is too deep.
-/

namespace ThreeAddress.Lowering

/-- Why a syntax tree cannot be lowered. -/
inductive LoweringError.Cause where
  /-- A node of this kind is no expression. -/
  | notExpression (kind : String)
  /-- A node of this kind is no statement. -/
  | notStatement (kind : String)
  /-- There is no token for this operator. -/
  | noToken (operator : String)
  /-- The tree nests deeper than allowed. -/
  | tooDeep (limit : Nat)
deriving DecidableEq, Repr, Inhabited

/-- A cause and the place of the node that it was found at. -/
structure LoweringError where
  cause : LoweringError.Cause
  location : Option Location
  span : Option Span
deriving DecidableEq, Repr, Inhabited

namespace LoweringError

/-- What the error says. -/
def Cause.message : Cause → String
  | .notExpression kind => "Unsupported expression kind: " ++ kind
  | .notStatement kind => "Unsupported statement kind: " ++ kind
  | .noToken operator => "Unsupported operator kind: " ++ operator
  | .tooDeep limit => "Nesting limit of " ++ toString limit ++ " exceeded"

/-- The part of the program that raises the error. -/
def Cause.issuer : Cause → String
  | .notExpression _ => "phptac.ir.lower.lower_expr"
  | .notStatement _ => "phptac.ir.lower.lower_stmt"
  | .noToken _ => "phptac.ir.lower.operators.resolve_operator"
  | .tooDeep _ => "phptac.ir.lower.lowering_context"

/-- The error as a diagnostic. -/
def diagnostic (e : LoweringError) : Diagnostic :=
  ⟨.error, e.cause.message, e.cause.issuer, e.location, e.span⟩

end LoweringError

end ThreeAddress.Lowering
