import ThreeAddress.Number.Double
import ThreeAddress.Syntax.Operator

/-!
# Kinds of syntax nodes

What a node of a syntax tree can be, with the place of its children left open: `Kind α` has
an `α` for every child. `Kind.fields` lists what a kind holds under the names that a dump
shows, so that whatever treats all kinds alike goes through it.
-/

namespace ThreeAddress.Syntax

/-- What a node is, over the type of its children. -/
inductive Kind (α : Type) where
  /-- A whole file. -/
  | script (body : List α)
  -- Names
  /-- A plain name. -/
  | identifier (name : String)
  /-- A name with namespace segments. -/
  | qualifiedName (parts : List String) (fullyQualified : Bool)
  -- Scalars
  | integer (value : Int)
  | float (value : Double)
  /-- A string without interpolation. -/
  | string (value : String)
  /-- A double-quoted string or heredoc with expressions in it. -/
  | interpolated (parts : List α)
  /-- The raw text between the expressions of an interpolated string. -/
  | stringPart (value : String)
  /-- A command between backticks. -/
  | shellExec (parts : List α)
  /-- A constant such as `__LINE__`. -/
  | magicConst (name : String)
  -- Variables and members
  | var (name : String)
  | variableVariable (expr : α)
  | constFetch (name : α)
  | classConstFetch (owner name : α)
  | propertyFetch (object property : α) (nullsafe : Bool)
  | staticPropertyFetch (owner property : α)
  | arrayDimFetch (base : α) (index : Option α)
  -- Operations
  | assign (target value : α)
  | assignRef (target value : α)
  | assignOp (op : BinaryOperator) (target value : α)
  | binaryOp (left : α) (op : BinaryOperator) (right : α)
  | unaryOp (op : UnaryOperator) (expr : α)
  | cast (type : CastType) (expr : α)
  | ternary (condition : α) (thenExpr : Option α) (elseExpr : α)
  | instanceOf (expr owner : α)
  -- Calls
  | call (callee : α) (args : List α)
  | methodCall (object method : α) (args : List α) (nullsafe : Bool)
  | staticCall (owner method : α) (args : List α)
  | argument (value : α) (unpack byRef : Bool) (name : Option String)
  | new (owner : α) (args : List α)
  -- Arrays; an empty slot is a position skipped in destructuring
  | array (items : List (Option α))
  | list (items : List (Option α))
  | arrayItem (key : Option α) (value : α) (byRef unpack : Bool)
  -- Language constructs
  | isset (vars : List α)
  | empty (expr : α)
  | exit (expr : Option α)
  | eval (expr : α)
  | clone (expr : α)
  | print (expr : α)
  | inclusion (way : Inclusion) (expr : α)
  | yield (value : Option α)
  | yieldFrom (expr : α)
  | closure (params uses body : List α) (byRef isStatic arrow : Bool)
  | closureUse (captured : α) (byRef : Bool)
  | param (name : String) (default : Option α) (byRef variadic : Bool) (typeHint : Option String)
  -- Statements
  | expressionStmt (expr : α)
  | echo (exprs : List α)
  | returnStmt (value : Option α)
  | block (statements : List α)
  | ifElse (condition : α) (thenBranch : List α) (elseBranch : Option (List α))
  | whileLoop (condition : α) (body : List α)
  | doWhile (body : List α) (condition : α)
  | forLoop (init conditions step body : List α)
  | foreachLoop (iterable : α) (key : Option α) (value : α) (byRef : Bool) (body : List α)
  | switch (subject : α) (cases : List α)
  | caseClause (test : Option α) (body : List α)
  | breakStmt (levels : Option Nat)
  | continueStmt (levels : Option Nat)
  | tryCatch (body catches : List α) (finalBody : Option (List α))
  | catchClause (types : List α) (caught : Option α) (body : List α)
  | throwStmt (expr : α)
  | global (vars : List α)
  | staticStmt (vars : List α)
  | staticVar (declared : α) (default : Option α)
  | unset (vars : List α)
  | constStmt (items : List α)
  | constItem (name : String) (value : α)
  | declare (items : List α)
  | namespaceStmt (name : Option α) (body : Option (List α))
  /-- An import; `group` is the common part of the names between braces. -/
  | useStmt (kind : Option String) (group : Option α) (items : List α)
  | useItem (kind : Option String) (name : α) (rename : Option String)
  | goto (target : String)
  | label (name : String)
  | inlineHtml (value : String)
  | nop
  -- Declarations
  | functionDecl (name : String) (params body : List α) (byRef : Bool)
  /-- A class; an anonymous one has no name. -/
  | classDecl (name : Option String) (modifiers : List String) (parent : Option α)
      (interfaces members : List α)
  | interfaceDecl (name : String) (parents members : List α)
  | traitDecl (name : String) (members : List α)
  | methodDecl (name : String) (modifiers : List String) (params : List α)
      (body : Option (List α)) (byRef : Bool)
  | propertyDecl (modifiers : List String) (props : List α)
  | propertyItem (name : String) (default : Option α)
  | classConst (modifiers : List String) (items : List α)
  | traitUse (traits : List α)
deriving Inhabited

/-- Something that a kind holds. -/
inductive Field (α : Type) where
  | node (child : α)
  | nodes (children : List α)
  | node? (child : Option α)
  | nodes? (children : Option (List α))
  | slots (children : List (Option α))
  | text (s : String)
  | text? (s : Option String)
  | texts (s : List String)
  | flag (b : Bool)
  | number? (n : Option Nat)
  | integer (n : Int)
  | float (x : Double)
  /-- The name of an operator or of a similar choice. -/
  | word (s : String)

/-- The children in a field. -/
def Field.children {α : Type} : Field α → List α
  | .node n => [n]
  | .nodes ns => ns
  | .node? n => n.toList
  | .nodes? ns => ns.getD []
  | .slots ns => ns.reduceOption
  | _ => []

namespace Kind

variable {α : Type}

/-- The name of the kind. -/
def name : Kind α → String
  | .script .. => "Script"
  | .identifier .. => "Identifier"
  | .qualifiedName .. => "Name"
  | .integer .. => "Integer"
  | .float .. => "Float"
  | .string .. => "String"
  | .interpolated .. => "Interpolated"
  | .stringPart .. => "StringPart"
  | .shellExec .. => "ShellExec"
  | .magicConst .. => "MagicConst"
  | .var .. => "Variable"
  | .variableVariable .. => "VariableVariable"
  | .constFetch .. => "ConstFetch"
  | .classConstFetch .. => "ClassConstFetch"
  | .propertyFetch .. => "PropertyFetch"
  | .staticPropertyFetch .. => "StaticPropertyFetch"
  | .arrayDimFetch .. => "ArrayDimFetch"
  | .assign .. => "Assign"
  | .assignRef .. => "AssignRef"
  | .assignOp .. => "AssignOp"
  | .binaryOp .. => "BinaryOp"
  | .unaryOp .. => "UnaryOp"
  | .cast .. => "Cast"
  | .ternary .. => "Ternary"
  | .instanceOf .. => "InstanceOf"
  | .call .. => "Call"
  | .methodCall .. => "MethodCall"
  | .staticCall .. => "StaticCall"
  | .argument .. => "Argument"
  | .new .. => "New"
  | .array .. => "Array"
  | .list .. => "List"
  | .arrayItem .. => "ArrayItem"
  | .isset .. => "Isset"
  | .empty .. => "Empty"
  | .exit .. => "Exit"
  | .eval .. => "Eval"
  | .clone .. => "Clone"
  | .print .. => "Print"
  | .inclusion .. => "Include"
  | .yield .. => "Yield"
  | .yieldFrom .. => "YieldFrom"
  | .closure .. => "Closure"
  | .closureUse .. => "ClosureUse"
  | .param .. => "Param"
  | .expressionStmt .. => "ExpressionStmt"
  | .echo .. => "Echo"
  | .returnStmt .. => "Return"
  | .block .. => "Block"
  | .ifElse .. => "If"
  | .whileLoop .. => "While"
  | .doWhile .. => "DoWhile"
  | .forLoop .. => "For"
  | .foreachLoop .. => "Foreach"
  | .switch .. => "Switch"
  | .caseClause .. => "Case"
  | .breakStmt .. => "Break"
  | .continueStmt .. => "Continue"
  | .tryCatch .. => "TryCatch"
  | .catchClause .. => "Catch"
  | .throwStmt .. => "Throw"
  | .global .. => "Global"
  | .staticStmt .. => "Static"
  | .staticVar .. => "StaticVar"
  | .unset .. => "Unset"
  | .constStmt .. => "Const"
  | .constItem .. => "ConstItem"
  | .declare .. => "Declare"
  | .namespaceStmt .. => "Namespace"
  | .useStmt .. => "Use"
  | .useItem .. => "UseItem"
  | .goto .. => "Goto"
  | .label .. => "Label"
  | .inlineHtml .. => "InlineHtml"
  | .nop => "Nop"
  | .functionDecl .. => "FunctionDecl"
  | .classDecl .. => "ClassDecl"
  | .interfaceDecl .. => "InterfaceDecl"
  | .traitDecl .. => "TraitDecl"
  | .methodDecl .. => "MethodDecl"
  | .propertyDecl .. => "PropertyDecl"
  | .propertyItem .. => "PropertyItem"
  | .classConst .. => "ClassConst"
  | .traitUse .. => "TraitUse"

/-- What the kind holds, in order, each under its name. -/
def fields : Kind α → List (String × Field α)
  | .script body => [("body", .nodes body)]
  | .identifier name => [("name", .text name)]
  | .qualifiedName parts fullyQualified =>
    [("parts", .texts parts), ("fully_qualified", .flag fullyQualified)]
  | .integer value => [("value", .integer value)]
  | .float value => [("value", .float value)]
  | .string value => [("value", .text value)]
  | .interpolated parts => [("parts", .nodes parts)]
  | .stringPart value => [("value", .text value)]
  | .shellExec parts => [("parts", .nodes parts)]
  | .magicConst name => [("name", .text name)]
  | .var name => [("name", .text name)]
  | .variableVariable expr => [("expr", .node expr)]
  | .constFetch name => [("name", .node name)]
  | .classConstFetch owner name => [("class", .node owner), ("name", .node name)]
  | .propertyFetch object property nullsafe =>
    [("object", .node object), ("property", .node property), ("nullsafe", .flag nullsafe)]
  | .staticPropertyFetch owner property => [("class", .node owner), ("property", .node property)]
  | .arrayDimFetch base index => [("base", .node base), ("index", .node? index)]
  | .assign target value => [("target", .node target), ("value", .node value)]
  | .assignRef target value => [("target", .node target), ("value", .node value)]
  | .assignOp op target value =>
    [("op", .word op.name), ("target", .node target), ("value", .node value)]
  | .binaryOp left op right =>
    [("left", .node left), ("op", .word op.name), ("right", .node right)]
  | .unaryOp op expr => [("op", .word op.name), ("expr", .node expr)]
  | .cast type expr => [("ty", .word type.name), ("expr", .node expr)]
  | .ternary condition thenExpr elseExpr =>
    [("condition", .node condition), ("then_expr", .node? thenExpr),
     ("else_expr", .node elseExpr)]
  | .instanceOf expr owner => [("expr", .node expr), ("class", .node owner)]
  | .call callee args => [("callee", .node callee), ("args", .nodes args)]
  | .methodCall object method args nullsafe =>
    [("object", .node object), ("method", .node method), ("args", .nodes args),
     ("nullsafe", .flag nullsafe)]
  | .staticCall owner method args =>
    [("class", .node owner), ("method", .node method), ("args", .nodes args)]
  | .argument value unpack byRef name =>
    [("value", .node value), ("unpack", .flag unpack), ("by_ref", .flag byRef),
     ("name", .text? name)]
  | .new owner args => [("class", .node owner), ("args", .nodes args)]
  | .array items => [("items", .slots items)]
  | .list items => [("items", .slots items)]
  | .arrayItem key value byRef unpack =>
    [("key", .node? key), ("value", .node value), ("by_ref", .flag byRef),
     ("unpack", .flag unpack)]
  | .isset vars => [("vars", .nodes vars)]
  | .empty expr => [("expr", .node expr)]
  | .exit expr => [("expr", .node? expr)]
  | .eval expr => [("expr", .node expr)]
  | .clone expr => [("expr", .node expr)]
  | .print expr => [("expr", .node expr)]
  | .inclusion way expr => [("kind", .word way.name), ("expr", .node expr)]
  | .yield value => [("value", .node? value)]
  | .yieldFrom expr => [("expr", .node expr)]
  | .closure params uses body byRef isStatic arrow =>
    [("params", .nodes params), ("uses", .nodes uses), ("body", .nodes body),
     ("by_ref", .flag byRef), ("is_static", .flag isStatic), ("arrow", .flag arrow)]
  | .closureUse captured byRef => [("var", .node captured), ("by_ref", .flag byRef)]
  | .param name default byRef variadic typeHint =>
    [("name", .text name), ("default", .node? default), ("by_ref", .flag byRef),
     ("variadic", .flag variadic), ("type_hint", .text? typeHint)]
  | .expressionStmt expr => [("expr", .node expr)]
  | .echo exprs => [("exprs", .nodes exprs)]
  | .returnStmt value => [("value", .node? value)]
  | .block statements => [("statements", .nodes statements)]
  | .ifElse condition thenBranch elseBranch =>
    [("condition", .node condition), ("then_branch", .nodes thenBranch),
     ("else_branch", .nodes? elseBranch)]
  | .whileLoop condition body => [("condition", .node condition), ("body", .nodes body)]
  | .doWhile body condition => [("body", .nodes body), ("condition", .node condition)]
  | .forLoop init conditions step body =>
    [("init", .nodes init), ("conditions", .nodes conditions), ("step", .nodes step),
     ("body", .nodes body)]
  | .foreachLoop iterable key value byRef body =>
    [("iterable", .node iterable), ("key", .node? key), ("value", .node value),
     ("by_ref", .flag byRef), ("body", .nodes body)]
  | .switch subject cases => [("subject", .node subject), ("cases", .nodes cases)]
  | .caseClause test body => [("test", .node? test), ("body", .nodes body)]
  | .breakStmt levels => [("levels", .number? levels)]
  | .continueStmt levels => [("levels", .number? levels)]
  | .tryCatch body catches finalBody =>
    [("body", .nodes body), ("catches", .nodes catches), ("finally", .nodes? finalBody)]
  | .catchClause types caught body =>
    [("types", .nodes types), ("var", .node? caught), ("body", .nodes body)]
  | .throwStmt expr => [("expr", .node expr)]
  | .global vars => [("vars", .nodes vars)]
  | .staticStmt vars => [("vars", .nodes vars)]
  | .staticVar declared default => [("var", .node declared), ("default", .node? default)]
  | .unset vars => [("vars", .nodes vars)]
  | .constStmt items => [("items", .nodes items)]
  | .constItem name value => [("name", .text name), ("value", .node value)]
  | .declare items => [("items", .nodes items)]
  | .namespaceStmt name body => [("name", .node? name), ("body", .nodes? body)]
  | .useStmt kind group items =>
    [("kind", .text? kind), ("prefix", .node? group), ("items", .nodes items)]
  | .useItem kind name rename =>
    [("kind", .text? kind), ("name", .node name), ("alias", .text? rename)]
  | .goto target => [("label", .text target)]
  | .label name => [("name", .text name)]
  | .inlineHtml value => [("value", .text value)]
  | .nop => []
  | .functionDecl name params body byRef =>
    [("name", .text name), ("params", .nodes params), ("body", .nodes body),
     ("by_ref", .flag byRef)]
  | .classDecl name modifiers parent interfaces members =>
    [("name", .text? name), ("modifiers", .texts modifiers), ("extends", .node? parent),
     ("implements", .nodes interfaces), ("members", .nodes members)]
  | .interfaceDecl name parents members =>
    [("name", .text name), ("extends", .nodes parents), ("members", .nodes members)]
  | .traitDecl name members => [("name", .text name), ("members", .nodes members)]
  | .methodDecl name modifiers params body byRef =>
    [("name", .text name), ("modifiers", .texts modifiers), ("params", .nodes params),
     ("body", .nodes? body), ("by_ref", .flag byRef)]
  | .propertyDecl modifiers props => [("modifiers", .texts modifiers), ("props", .nodes props)]
  | .propertyItem name default => [("name", .text name), ("default", .node? default)]
  | .classConst modifiers items => [("modifiers", .texts modifiers), ("items", .nodes items)]
  | .traitUse traits => [("traits", .nodes traits)]

/-- The children, in order. -/
def children (k : Kind α) : List α :=
  k.fields.flatMap fun (_, f) => f.children

/-- Whether the kind stands for a value. -/
def isExpression : Kind α → Bool
  | .identifier .. | .qualifiedName .. | .integer .. | .float .. | .string .. | .interpolated ..
  | .shellExec .. | .magicConst .. | .var .. | .variableVariable .. | .constFetch ..
  | .classConstFetch .. | .propertyFetch .. | .staticPropertyFetch .. | .arrayDimFetch ..
  | .assign .. | .assignRef .. | .assignOp .. | .binaryOp .. | .unaryOp .. | .cast ..
  | .ternary .. | .instanceOf .. | .call .. | .methodCall .. | .staticCall .. | .new ..
  | .array .. | .list .. | .isset .. | .empty .. | .exit .. | .eval .. | .clone .. | .print ..
  | .inclusion .. | .yield .. | .yieldFrom .. | .closure .. => true
  | _ => false

/-- Whether the kind is a call of a function or method. -/
def isCall : Kind α → Bool
  | .call .. | .methodCall .. | .staticCall .. => true
  | _ => false

/-- Whether the kind declares something. -/
def isDeclaration : Kind α → Bool
  | .functionDecl .. | .classDecl .. | .interfaceDecl .. | .traitDecl .. | .methodDecl ..
  | .propertyDecl .. | .classConst .. | .traitUse .. => true
  | _ => false

/-- Whether the kind can stand in a list of statements. -/
def isStatement : Kind α → Bool
  | .script .. | .expressionStmt .. | .echo .. | .returnStmt .. | .block .. | .ifElse ..
  | .whileLoop .. | .doWhile .. | .forLoop .. | .foreachLoop .. | .switch .. | .breakStmt ..
  | .continueStmt .. | .tryCatch .. | .throwStmt .. | .global .. | .staticStmt .. | .unset ..
  | .constStmt .. | .declare .. | .namespaceStmt .. | .useStmt .. | .goto .. | .label ..
  | .inlineHtml .. | .nop => true
  | k => k.isDeclaration

end Kind

end ThreeAddress.Syntax
