/-!
# Grammar rules

The named rules of the PHP grammar, in the order in which the grammar declares
them. A rule's `name` is what a syntax error lists, and `Rule.order` is the order
of that list: **the end of input first, then as declared**.
-/

namespace ThreeAddress.Grammar

/-- The words that the grammar reads as keywords, whatever their case. -/
inductive Keyword where
  | abstractKw | arrayKw | asKw | breakKw | caseKw | catchKw | classKw | constKw | continueKw
  | declareKw | defaultKw | dieKw | doKw | echoKw | elseKw | elseifKw | emptyKw | evalKw
  | exitKw | extendsKw | finalKw | finallyKw | fnKw | forKw | foreachKw | fromKw | functionKw
  | globalKw | gotoKw | ifKw | implementsKw | instanceofKw | interfaceKw | issetKw | listKw
  | namespaceKw | newKw | privateKw | protectedKw | publicKw | readonlyKw | returnKw | staticKw
  | switchKw | throwKw | traitKw | tryKw | unsetKw | useKw | varKw | whileKw | yieldKw
deriving DecidableEq, Repr, Inhabited

/-- How a keyword is written. -/
def Keyword.word : Keyword → String
  | .abstractKw => "abstract"
  | .arrayKw => "array"
  | .asKw => "as"
  | .breakKw => "break"
  | .caseKw => "case"
  | .catchKw => "catch"
  | .classKw => "class"
  | .constKw => "const"
  | .continueKw => "continue"
  | .declareKw => "declare"
  | .defaultKw => "default"
  | .dieKw => "die"
  | .doKw => "do"
  | .echoKw => "echo"
  | .elseKw => "else"
  | .elseifKw => "elseif"
  | .emptyKw => "empty"
  | .evalKw => "eval"
  | .exitKw => "exit"
  | .extendsKw => "extends"
  | .finalKw => "final"
  | .finallyKw => "finally"
  | .fnKw => "fn"
  | .forKw => "for"
  | .foreachKw => "foreach"
  | .fromKw => "from"
  | .functionKw => "function"
  | .globalKw => "global"
  | .gotoKw => "goto"
  | .ifKw => "if"
  | .implementsKw => "implements"
  | .instanceofKw => "instanceof"
  | .interfaceKw => "interface"
  | .issetKw => "isset"
  | .listKw => "list"
  | .namespaceKw => "namespace"
  | .newKw => "new"
  | .privateKw => "private"
  | .protectedKw => "protected"
  | .publicKw => "public"
  | .readonlyKw => "readonly"
  | .returnKw => "return"
  | .staticKw => "static"
  | .switchKw => "switch"
  | .throwKw => "throw"
  | .traitKw => "trait"
  | .tryKw => "try"
  | .unsetKw => "unset"
  | .useKw => "use"
  | .varKw => "var"
  | .whileKw => "while"
  | .yieldKw => "yield"

/-- A rule that leaves a node in the parse tree. Keywords share one constructor. -/
inductive Rule where
  | eoi | identifier | qualifiedName | variableName | script | openTag | closeTag | inlineHtml
  | keyword (k : Keyword)
  | statement | block | ifStmt | elseifClause | elseClause | whileStmt | doStmt | forStmt
  | forClause | foreachStmt | foreachBinding | foreachValue | switchStmt | caseClause
  | breakStmt | continueStmt | returnStmt | echoStmt | globalStmt | staticStmt | staticItem
  | unsetStmt | throwStmt | tryStmt | catchClause | finallyClause | namespaceStmt | useStmt
  | useKind | useItem | useGroup | groupPrefix | useGroupItem | constStmt | constItem
  | declareStmt | gotoStmt | labelStmt | inlineHtmlStmt | inlineText | nopStmt | expressionStmt
  | functionDecl | paramList | param | variadic | byRef | typeHint | typeAtom | returnType
  | classDecl | classModifier | extendsClause | implementsClause | nameList | interfaceDecl
  | traitDecl | classBody | classMember | traitUse | traitRules | classConst | methodDecl
  | propertyDecl | propertyItem | memberModifier | expr | cast | castType | preInc | preDec
  | opNeg | opPos | opNot | opBitNot | opSilence | opClone | opPrint | opYieldFrom | opYield
  | opInclude | postInc | postDec | instanceofOp | opAssignRef | opAssign | opCoalesce
  | opTernary | opBoolOr | opBoolAnd | opEquality | opCompare | opShift | opPow | opBitOr
  | opBitXor | opBitAnd | opConcat | opAdditive | opMultiplicative | opOrKw | opXorKw | opAndKw
  | operand | callArgs | argument | spreadArg | namedArg | dimAccess | propAccess
  | nullsafeAccess | staticMember | memberName | braceExpr | parenExpr | varVar | closure
  | closureUses | closureUse | arrowFn | newExpr | anonymousClass | classRef | dynamicClass
  | issetExpr | emptyExpr | exitExpr | evalExpr | listExpr | arrayLong | arrayLiteral
  | arrayItems | arraySlot | arrayItem | spreadItem | refItem | arrayValue | magicConst
  | digits | exponent | float | integer | stringSingle | stringDouble | quotedText | braceInterp
  | simpleInterp | interpIndex | interpOffset | interpKey | interpProp | heredocLabel | heredoc
  | heredocText | nowdoc | nowdocText | shellExec | backtickText
deriving DecidableEq, Repr, Inhabited

namespace Rule

/-- The name under which a syntax error lists the rule. -/
def name : Rule → String
  | .eoi => "EOI"
  | .identifier => "identifier"
  | .qualifiedName => "qualified_name"
  | .variableName => "variable"
  | .script => "script"
  | .openTag => "open_tag"
  | .closeTag => "close_tag"
  | .inlineHtml => "inline_html"
  | .keyword k => "kw_" ++ k.word
  | .statement => "statement"
  | .block => "block"
  | .ifStmt => "if_stmt"
  | .elseifClause => "elseif_clause"
  | .elseClause => "else_clause"
  | .whileStmt => "while_stmt"
  | .doStmt => "do_stmt"
  | .forStmt => "for_stmt"
  | .forClause => "for_clause"
  | .foreachStmt => "foreach_stmt"
  | .foreachBinding => "foreach_binding"
  | .foreachValue => "foreach_value"
  | .switchStmt => "switch_stmt"
  | .caseClause => "case_clause"
  | .breakStmt => "break_stmt"
  | .continueStmt => "continue_stmt"
  | .returnStmt => "return_stmt"
  | .echoStmt => "echo_stmt"
  | .globalStmt => "global_stmt"
  | .staticStmt => "static_stmt"
  | .staticItem => "static_item"
  | .unsetStmt => "unset_stmt"
  | .throwStmt => "throw_stmt"
  | .tryStmt => "try_stmt"
  | .catchClause => "catch_clause"
  | .finallyClause => "finally_clause"
  | .namespaceStmt => "namespace_stmt"
  | .useStmt => "use_stmt"
  | .useKind => "use_kind"
  | .useItem => "use_item"
  | .useGroup => "use_group"
  | .groupPrefix => "group_prefix"
  | .useGroupItem => "use_group_item"
  | .constStmt => "const_stmt"
  | .constItem => "const_item"
  | .declareStmt => "declare_stmt"
  | .gotoStmt => "goto_stmt"
  | .labelStmt => "label_stmt"
  | .inlineHtmlStmt => "inline_html_stmt"
  | .inlineText => "inline_text"
  | .nopStmt => "nop_stmt"
  | .expressionStmt => "expression_stmt"
  | .functionDecl => "function_decl"
  | .paramList => "param_list"
  | .param => "param"
  | .variadic => "variadic"
  | .byRef => "by_ref"
  | .typeHint => "type_hint"
  | .typeAtom => "type_atom"
  | .returnType => "return_type"
  | .classDecl => "class_decl"
  | .classModifier => "class_modifier"
  | .extendsClause => "extends_clause"
  | .implementsClause => "implements_clause"
  | .nameList => "name_list"
  | .interfaceDecl => "interface_decl"
  | .traitDecl => "trait_decl"
  | .classBody => "class_body"
  | .classMember => "class_member"
  | .traitUse => "trait_use"
  | .traitRules => "trait_rules"
  | .classConst => "class_const"
  | .methodDecl => "method_decl"
  | .propertyDecl => "property_decl"
  | .propertyItem => "property_item"
  | .memberModifier => "member_modifier"
  | .expr => "expr"
  | .cast => "cast"
  | .castType => "cast_type"
  | .preInc => "pre_inc"
  | .preDec => "pre_dec"
  | .opNeg => "op_neg"
  | .opPos => "op_pos"
  | .opNot => "op_not"
  | .opBitNot => "op_bit_not"
  | .opSilence => "op_silence"
  | .opClone => "op_clone"
  | .opPrint => "op_print"
  | .opYieldFrom => "op_yield_from"
  | .opYield => "op_yield"
  | .opInclude => "op_include"
  | .postInc => "post_inc"
  | .postDec => "post_dec"
  | .instanceofOp => "instanceof_op"
  | .opAssignRef => "op_assign_ref"
  | .opAssign => "op_assign"
  | .opCoalesce => "op_coalesce"
  | .opTernary => "op_ternary"
  | .opBoolOr => "op_bool_or"
  | .opBoolAnd => "op_bool_and"
  | .opEquality => "op_equality"
  | .opCompare => "op_compare"
  | .opShift => "op_shift"
  | .opPow => "op_pow"
  | .opBitOr => "op_bit_or"
  | .opBitXor => "op_bit_xor"
  | .opBitAnd => "op_bit_and"
  | .opConcat => "op_concat"
  | .opAdditive => "op_additive"
  | .opMultiplicative => "op_multiplicative"
  | .opOrKw => "op_or_kw"
  | .opXorKw => "op_xor_kw"
  | .opAndKw => "op_and_kw"
  | .operand => "operand"
  | .callArgs => "call_args"
  | .argument => "argument"
  | .spreadArg => "spread_arg"
  | .namedArg => "named_arg"
  | .dimAccess => "dim_access"
  | .propAccess => "prop_access"
  | .nullsafeAccess => "nullsafe_access"
  | .staticMember => "static_member"
  | .memberName => "member_name"
  | .braceExpr => "brace_expr"
  | .parenExpr => "paren_expr"
  | .varVar => "var_var"
  | .closure => "closure"
  | .closureUses => "closure_uses"
  | .closureUse => "closure_use"
  | .arrowFn => "arrow_fn"
  | .newExpr => "new_expr"
  | .anonymousClass => "anonymous_class"
  | .classRef => "class_ref"
  | .dynamicClass => "dynamic_class"
  | .issetExpr => "isset_expr"
  | .emptyExpr => "empty_expr"
  | .exitExpr => "exit_expr"
  | .evalExpr => "eval_expr"
  | .listExpr => "list_expr"
  | .arrayLong => "array_long"
  | .arrayLiteral => "array_literal"
  | .arrayItems => "array_items"
  | .arraySlot => "array_slot"
  | .arrayItem => "array_item"
  | .spreadItem => "spread_item"
  | .refItem => "ref_item"
  | .arrayValue => "array_value"
  | .magicConst => "magic_const"
  | .digits => "digits"
  | .exponent => "exponent"
  | .float => "float"
  | .integer => "integer"
  | .stringSingle => "string_single"
  | .stringDouble => "string_double"
  | .quotedText => "dq_text"
  | .braceInterp => "brace_interp"
  | .simpleInterp => "simple_interp"
  | .interpIndex => "interp_index"
  | .interpOffset => "interp_offset"
  | .interpKey => "interp_key"
  | .interpProp => "interp_prop"
  | .heredocLabel => "hd_label"
  | .heredoc => "heredoc"
  | .heredocText => "hd_text"
  | .nowdoc => "nowdoc"
  | .nowdocText => "nowdoc_text"
  | .shellExec => "shell_exec"
  | .backtickText => "bt_text"

/-- Place in the declaration order; keywords are declared one after the other. -/
def order : Rule → Nat × Nat
  | .keyword k => ((Rule.keyword k).ctorIdx, k.ctorIdx)
  | r => (r.ctorIdx, 0)

/-- The declaration order as a test. -/
def declaredBefore (a b : Rule) : Bool :=
  a.order.1 < b.order.1 || (a.order.1 == b.order.1 && a.order.2 ≤ b.order.2)

/-- Whether the rule is a keyword. -/
def isKeyword : Rule → Bool
  | .keyword _ => true
  | _ => false

/-- Operators of an expression. Each one adds a level to the tree of its expression. -/
def isOperator : Rule → Bool
  | .cast | .preInc | .preDec | .opNeg | .opPos | .opNot | .opBitNot | .opSilence | .opClone
  | .opPrint | .opYieldFrom | .opYield | .opInclude
  | .postInc | .postDec | .instanceofOp
  | .opAssignRef | .opAssign | .opCoalesce | .opTernary | .opBoolOr | .opBoolAnd | .opEquality
  | .opCompare | .opShift | .opPow | .opBitOr | .opBitXor | .opBitAnd | .opConcat | .opAdditive
  | .opMultiplicative | .opOrKw | .opXorKw | .opAndKw => true
  | _ => false

end Rule

end ThreeAddress.Grammar
