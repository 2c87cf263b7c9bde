import ThreeAddress.Diagnostic
import ThreeAddress.Grammar.Attempts

/-!
# Syntax errors

Why a text has no syntax tree. The grammar refuses most wrong texts; a few literals are
refused only when their value is wanted. The other causes say that the trees of the grammar
are **not what the builders expect of them**.
-/

namespace ThreeAddress.Syntax

/-- What a rule has to be one of where its node is built. -/
inductive Expected where
  | prefixOperator | postfixOperator | accessor | memberName | atom | classReference
  | statement | classMember | name
deriving DecidableEq, Repr

namespace Expected

open Grammar (Rule)

/-- The rules that stand for a node there. Operators and accesses have none of their own. -/
def rules : Expected → List Rule
  | .prefixOperator | .postfixOperator | .accessor => []
  | .memberName => [.memberName, .braceExpr, .identifier, .variableName]
  | .atom =>
    [.closure, .arrowFn, .newExpr, .parenExpr, .variableName, .qualifiedName, .varVar, .issetExpr,
      .emptyExpr, .evalExpr, .exitExpr, .listExpr, .arrayLong, .arrayLiteral, .magicConst, .float,
      .integer, .stringSingle, .stringDouble, .heredoc, .nowdoc, .shellExec]
  | .classReference => [.qualifiedName, .parenExpr, .dynamicClass]
  | .statement =>
    [.ifStmt, .whileStmt, .doStmt, .forStmt, .foreachStmt, .switchStmt, .tryStmt, .functionDecl,
      .classDecl, .interfaceDecl, .traitDecl, .expressionStmt, .echoStmt, .returnStmt, .breakStmt,
      .continueStmt, .globalStmt, .staticStmt, .unsetStmt, .throwStmt, .namespaceStmt, .useStmt,
      .constStmt, .declareStmt, .gotoStmt, .labelStmt, .inlineHtmlStmt, .nopStmt]
  | .classMember => [.traitUse, .classConst, .methodDecl, .propertyDecl]
  | .name => [.qualifiedName]

/-- What is said about a rule that is none of them. -/
def message (rule : String) : Expected → String
  | .prefixOperator => "Unexpected prefix operator " ++ rule ++ "."
  | .postfixOperator => "Unexpected postfix operator " ++ rule ++ "."
  | .accessor => "Unexpected accessor " ++ rule ++ "."
  | .memberName => "Unexpected member name " ++ rule ++ "."
  | .atom => "Unexpected expression " ++ rule ++ "."
  | .classReference => "Unexpected class reference " ++ rule ++ "."
  | .statement => "Unexpected statement type: " ++ rule
  | .classMember => "Unexpected class member: " ++ rule
  | .name => "Unexpected rule in name list: " ++ rule

/-- The part of the program that finds it. -/
def issuer : Expected → String
  | .prefixOperator => "phptac.expr.parse_prefix_op"
  | .postfixOperator => "phptac.expr.parse_postfix_op"
  | .accessor => "phptac.expr.parse_operand_rule"
  | .memberName => "phptac.expr.parse_member_name_rule"
  | .atom => "phptac.expr.parse_atom_rule"
  | .classReference => "phptac.expr.parse_class_ref_rule"
  | .statement => "phptac.stmt.parse_simple_statement_rule"
  | .classMember => "phptac.stmt.parse_class_member_rule"
  | .name => "phptac.stmt.parse_name_list_rule"

end Expected

/-- The words and tokens that are looked up in a table. -/
inductive Vocabulary where
  | cast | compoundAssignment | binaryOperator
deriving DecidableEq, Repr

namespace Vocabulary

/-- What is said about a text that the table does not have. -/
def message (text : String) : Vocabulary → String
  | .cast => "Unknown cast '" ++ text ++ "'."
  | .compoundAssignment => "Unknown compound assignment '" ++ text ++ "'."
  | .binaryOperator => "Unknown binary operator '" ++ text ++ "'."

/-- The part of the program that looks it up. -/
def issuer : Vocabulary → String
  | .cast => "phptac.expr.parse_prefix_op"
  | .compoundAssignment | .binaryOperator => "phptac.expr.parse_infix_op"

end Vocabulary

/-- What is looked for among the parts of a rule by the rule that it matched. -/
inductive Sought where
  | elementValue | keyedValue | foreachValue | parameterName | captured
deriving DecidableEq, Repr

namespace Sought

/-- What is said if there is none. -/
def message : Sought → String
  | .elementValue => "Array element without a value."
  | .keyedValue => "Array key without a value."
  | .foreachValue => "foreach binding without a value."
  | .parameterName => "Parameter without a name."
  | .captured => "Closure use without a variable."

/-- The part of the program that looks for it. -/
def issuer : Sought → String
  | .elementValue | .keyedValue => "phptac.expr.parse_array_item_rule"
  | .foreachValue => "phptac.stmt.parse_loop_statement_rule"
  | .parameterName => "phptac.stmt.parse_param_list_rule"
  | .captured => "phptac.expr.parse_closure_rule"

end Sought

/-- Why a text has no syntax tree. -/
inductive SyntaxError.Cause where
  /-- The grammar does not match; these rules were tried in vain, in this line. -/
  | unmatched (attempts : Grammar.Attempts) (line : Nat)
  /-- Statements and expressions nest deeper than allowed. -/
  | tooDeep (limit : Nat)
  /-- An integer literal has no value. -/
  | badInteger (text : String)
  /-- A jump leaves no number of loops. -/
  | badLoopDepth (text : String)
  /-- A float literal has no value. -/
  | badFloat (text : String)
  /-- A rule matched with fewer parts than it is made of. -/
  | missingPart
  /-- A rule stands where only others are expected. -/
  | unexpected (what : Expected) (rule : Grammar.Rule)
  /-- A word or token is not in its table. -/
  | unknown (what : Vocabulary) (text : String)
  /-- A rule matched without the part that is looked for. -/
  | lacking (what : Sought)
  /-- Operands and operators do not alternate, or a part is read as another rule. -/
  | malformed
  /-- The bound on the work of matching was reached. -/
  | exhausted

/-- A cause and where it was found. -/
structure SyntaxError where
  cause : SyntaxError.Cause
  location : Option Location
  span : Option Span

namespace SyntaxError

/-- What the error says. -/
def message (e : SyntaxError) : String :=
  match e.cause with
  | .unmatched a line => "Syntax error, " ++ a.message ++ " on line " ++ toString line
  | .tooDeep limit => "Nesting limit of " ++ toString limit ++ " exceeded"
  | .badInteger text => "Invalid integer literal '" ++ text ++ "'."
  | .badLoopDepth text => "'" ++ text ++ "' is not a valid loop depth."
  | .badFloat text => "Invalid float literal '" ++ text ++ "': invalid float literal"
  | .missingPart => "Expected more inner pairs but found none."
  | .unexpected what rule => what.message rule.name
  | .unknown what text => what.message text
  | .lacking what => what.message
  | .malformed => "Expected prefix or primary expression"
  | .exhausted => "Syntax error, out of bounds"

/-- The part of the program that raises the error. -/
def issuer (e : SyntaxError) : String :=
  match e.cause with
  | .unmatched _ _ | .exhausted => "phptac.ast.generate_ast_from_source"
  | .tooDeep _ => "phptac.ast.check_nesting"
  | .badInteger _ | .badFloat _ => "phptac.expr.parse_atom_rule"
  | .badLoopDepth _ => "phptac.stmt.parse_jump_levels"
  | .missingPart => "phptac.ast.rules.fetch_next_pair"
  | .unexpected what _ => what.issuer
  | .unknown what _ => what.issuer
  | .lacking what => what.issuer
  | .malformed => "phptac.expr.parse_expression_rule"

/-- The error as a diagnostic. -/
def diagnostic (e : SyntaxError) : Diagnostic :=
  ⟨.error, e.message, e.issuer, e.location, e.span⟩

/-- An error at a single place. -/
def atPlace (cause : Cause) (place : Location) : SyntaxError :=
  ⟨cause, some place, some (.empty place)⟩

end SyntaxError

end ThreeAddress.Syntax
